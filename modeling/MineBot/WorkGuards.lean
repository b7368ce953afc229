import Mathlib
import MineBot.WorkBatches

/-!
# Records that are left alone

A record stays as it is as long as nothing works under its key: no frame has
it, no node is entered under it, and no repeat is given it (`step_rests`).

With that, for a delivered call whose obligation a later plan changes: the guard
of `_execute` refuses it and keeps the delivered result, but it does so by
replacing the record it relies on. `delivered_not_replayed` is about the runs
that reach the changed call no second time.
-/

namespace MineBot

namespace WorkRuntime

/-! ## Nodes that are entered -/

/-- A node is looked up under the key. -/
def Event.Enters (key : String) : Event → Prop
  | .entered _ key' _ => key' = key
  | _ => False

section

variable {questions : Questions} {s s' : State} {frame : Frame} {rest : List Frame}
variable {events : List Event} {key : String} {ref : Nat} {input : Input}

theorem MayInterrupt.no_entry (h : MayInterrupt frame events) :
    ∀ event ∈ events, ¬ event.Enters key := by
  rcases h with rfl | ⟨attempt, rfl⟩
  · exact fun event hmem => absurd hmem List.not_mem_nil
  · intro event hmem
    obtain rfl := List.mem_singleton.mp hmem
    exact id

theorem Move.no_entry (m : Move s frame rest events s') : ∀ event ∈ events, ¬ event.Enters key := by
  cases m with
  | raises _ hi _ _ => exact hi.no_entry
  | enters _ _ hi _ _ _ => exact hi.no_entry
  | leaves hi _ _ _ _ => exact hi.no_entry
  | _ => simp [Event.Enters]

/-- A node that is entered is what the step is about. -/
theorem control_of_enters {event : Event} (hmem : event ∈ (step questions s input).1)
    (h : event.Enters key) :
    ∃ d, s.control = .enter d ∧ (nodeKey questions d.node s.executor).1 = key := by
  have hentered : ∀ d, s.control = .enter d →
      ∃ d, s.control = .enter d ∧ (nodeKey questions d.node s.executor).1 = key := by
    intro d hd
    rcases step_enter questions input hd with heq | heq
    · rw [heq, enterNode_events] at hmem
      obtain rfl := List.mem_singleton.mp hmem
      exact ⟨d, hd, h⟩
    · rw [heq] at hmem
      cases hmem
  have e : Effect questions s input _ _ := step_effect s input
  generalize (step questions s input).1 = events at e hmem
  generalize (step questions s input).2 = s' at e
  cases e with
  | found he _ _ _ => exact hentered _ he.control
  | refuses he _ _ _ _ _ => exact hentered _ he.control
  | opens he _ _ _ _ _ _ => exact hentered _ he.control
  | makes he _ _ _ _ => exact hentered _ he.control
  | moves _ m => exact absurd h (m.no_entry event hmem)
  | fails _ _ hevent =>
      obtain rfl := List.mem_singleton.mp hmem
      rcases hevent with rfl | rfl | rfl <;> exact h.elim
  | finishes _ _ =>
      obtain rfl := List.mem_singleton.mp hmem
      exact h.elim
  | _ => cases hmem

theorem Placed.active (h : Placed questions s) (hf : frame ∈ s.stack) : s.control ≠ .idle := by
  intro hidle
  rw [h.idle hidle] at hf
  cases hf

/-! ## Keys nothing works under -/

/-- No frame has the key. -/
def Apart (key : String) (stack : List Frame) : Prop :=
  ∀ frame ∈ stack, frame.key ≠ key ∧ frame.baseKey ≠ key

/-- The key is not one that a repeat of the run has been given. -/
def Unlisted (key : String) (s : State) : Prop :=
  s.control ≠ .idle → ∀ base history,
    s.executor.repeatHistory.get? base = some history → key ∉ history

/-- No call on top of the stack is about to be given the key. -/
def Unclaimed (key : String) (s : State) : Prop :=
  ∀ frame rest, s.stack = frame :: rest → repeatKey frame.baseKey (frame.invocation + 1) ≠ key

theorem Unlisted.next (h : Unlisted key s) (hidle : s.control ≠ .idle)
    (hfresh : repeatKey frame.baseKey (frame.invocation + 1) ≠ key) :
    key ∉ (s.executor.repeatHistory.get? frame.baseKey).getD []
      ++ [repeatKey frame.baseKey (frame.invocation + 1)] := by
  rw [List.mem_append, List.mem_singleton]
  rintro (hlisted | rfl)
  · cases hlookup : s.executor.repeatHistory.get? frame.baseKey with
    | none =>
        rw [hlookup] at hlisted
        cases hlisted
    | some history =>
        rw [hlookup] at hlisted
        exact h hidle _ _ hlookup hlisted
  · exact hfresh rfl

theorem Move.unlisted (m : Move s frame rest events s') (hidle : s.control ≠ .idle)
    (h : Unlisted key s) (hfresh : repeatKey frame.baseKey (frame.invocation + 1) ≠ key) :
    Unlisted key s' := by
  cases m with
  | @repeats _ _ history _ _ _ _ hhistory _ =>
      intro _ base found hfound
      rw [Dict.get?_set] at hfound
      split at hfound
      · obtain rfl := Option.some.inj hfound
        rw [hhistory]
        exact h.next hidle hfresh
      · exact h hidle base found hfound
  | _ => exact fun _ => h hidle

theorem step_unlisted (hplaced : Placed questions s) (h : Unlisted key s)
    (hfresh : Unclaimed key s) : Unlisted key (step questions s input).2 := by
  have e : Effect questions s input _ _ := step_effect s input
  generalize (step questions s input).1 = events at e
  generalize (step questions s input).2 = s' at e
  have hentry : ∀ {d key' executor}, Entry questions s d key' executor → ∀ {store stack control},
      Unlisted key ⟨store, executor, stack, control⟩ := by
    intro d key' executor he store stack control _
    rw [he.history]
    exact h (by rw [he.control]; simp)
  cases e with
  | still => exact h
  | construct hc _ _ => exact fun hno => absurd hc hno
  | start _ _ => exact fun _ base history hget => by cases hget
  | found he _ _ _ => exact hentry he
  | refuses he _ _ _ _ _ => exact hentry he
  | opens he _ _ _ _ _ _ => exact hentry he
  | makes he _ _ _ _ => exact hentry he
  | moves hs m =>
      exact m.unlisted (hplaced.active (hs ▸ List.mem_cons_self)) h (hfresh _ _ hs)
  | finishes _ _ => exact fun hno => absurd rfl hno
  | fails _ _ _ => exact fun hno => absurd rfl hno
  | unwinds hs _ => exact fun _ => h (hplaced.active (hs ▸ List.mem_cons_self))
  | cuts hs _ _ =>
      exact fun _ => h (hplaced.active (hs ▸ List.mem_append_right _ List.mem_cons_self))

theorem Move.mapped (m : Move s frame rest events s') (hidle : s.control ≠ .idle)
    (hunlisted : Unlisted key s)
    (hfresh : repeatKey frame.baseKey (frame.invocation + 1) ≠ key)
    (h : s.store.records.get? key = some ref) : s'.store.records.get? key = some ref := by
  cases m with
  | still => exact h
  | stray _ => exact h
  | raises _ _ hk _ => exact hk.records ▸ h
  | awaits hk _ _ _ _ _ => exact hk.records ▸ h
  | resumes hk _ => exact hk.records ▸ h
  | dispatches _ _ hk _ => exact hk.records ▸ h
  | enters _ _ _ hk _ _ => exact hk.records ▸ h
  | chooses _ ha _ _ _ => exact ha.records ▸ h
  | leaves _ _ hk _ _ => exact hk.records ▸ h
  | completes _ _ hk => exact hk.records ▸ h
  | ends _ hk _ => exact hk.records ▸ h
  | @repeats store _ history old _ hk _ hhistory hold =>
      have hnot : key ∉ old := fun hmem =>
        hunlisted.next hidle hfresh (hhistory ▸ hold key hmem)
      rw [Store.records_put, Dict.get?_set_of_ne _ hfresh.symm, Dict.get?_foldl_pop, if_neg hnot]
      exact hk.records ▸ h
  | handled _ _ hk _ => exact hk.records ▸ h
  | advances _ _ hk _ => exact hk.records ▸ h

/-- A key keeps its object unless a node is looked up or a repeat is put under it. -/
theorem step_mapped (hplaced : Placed questions s) (hunlisted : Unlisted key s)
    (hquiet : ∀ event ∈ (step questions s input).1, ¬ event.Enters key)
    (hfresh : Unclaimed key s) (h : s.store.records.get? key = some ref) :
    (step questions s input).2.store.records.get? key = some ref := by
  have e : Effect questions s input _ _ := step_effect s input
  generalize (step questions s input).1 = events at e hquiet
  generalize (step questions s input).2 = s' at e
  have hput : ∀ {key' record}, key' ≠ key →
      (s.store.put key' record).records.get? key = some ref := by
    intro key' record hne
    rw [Store.records_put, Dict.get?_set_of_ne _ hne.symm]
    exact h
  cases e with
  | refuses he _ _ _ _ _ => exact hput (hquiet _ (List.mem_singleton_self _))
  | @opens d key' _ ref' _ _ _ he _ _ _ hk _ _ =>
      exact (hk ⟨d.node, d.path, d.item, key', key', ref', 0, .body⟩).records ▸ h
  | @makes d key' _ _ _ _ he _ hk _ _ =>
      rw [(hk ⟨d.node, d.path, d.item, key', key', s.store.objects.length, 0, .body⟩).records]
      exact hput (hquiet _ (List.mem_singleton_self _))
  | moves hs m =>
      exact m.mapped (hplaced.active (hs ▸ List.mem_cons_self)) hunlisted (hfresh _ _ hs) h
  | cuts _ hk _ => exact hk.records ▸ h
  | _ => exact h

theorem Move.apart (m : Move s frame rest events s') (hs : s.stack = frame :: rest)
    (h : Apart key s.stack) (hfresh : repeatKey frame.baseKey (frame.invocation + 1) ≠ key) :
    Apart key s'.stack := by
  rw [hs] at h
  have hrest : Apart key rest := fun f hf => h f (List.mem_cons_of_mem _ hf)
  obtain ⟨hkey, hbase⟩ := h frame List.mem_cons_self
  have htop : ∀ phase, Apart key ({ frame with phase } :: rest) :=
    fun phase => List.forall_mem_cons.mpr ⟨⟨hkey, hbase⟩, hrest⟩
  cases m with
  | still => exact hs ▸ h
  | stray _ => exact hs ▸ h
  | raises _ _ _ _ => exact h
  | awaits _ _ _ _ _ _ => exact htop _
  | resumes _ _ => exact htop _
  | dispatches _ _ _ _ => exact htop _
  | enters _ _ _ _ _ _ => exact htop _
  | chooses _ _ _ _ _ => exact htop _
  | leaves _ _ _ _ _ => exact hrest
  | completes _ _ _ => exact hrest
  | ends _ _ _ => exact hrest
  | repeats _ _ _ _ _ => exact List.forall_mem_cons.mpr ⟨⟨hfresh, hbase⟩, hrest⟩
  | handled _ _ _ _ => exact htop _
  | advances _ _ _ _ => exact htop _

theorem step_apart (h : Apart key s.stack)
    (hquiet : ∀ event ∈ (step questions s input).1, ¬ event.Enters key)
    (hfresh : Unclaimed key s) : Apart key (step questions s input).2.stack := by
  have e : Effect questions s input _ _ := step_effect s input
  generalize (step questions s input).1 = events at e hquiet
  generalize (step questions s input).2 = s' at e
  cases e with
  | start _ _ => exact fun f hf => absurd hf List.not_mem_nil
  | opens _ _ _ _ _ _ _ =>
      have hne := hquiet _ (List.mem_singleton_self _)
      exact List.forall_mem_cons.mpr ⟨⟨hne, hne⟩, h⟩
  | makes _ _ _ _ _ =>
      have hne := hquiet _ (List.mem_singleton_self _)
      exact List.forall_mem_cons.mpr ⟨⟨hne, hne⟩, h⟩
  | moves hs m => exact m.apart hs h (hfresh _ _ hs)
  | unwinds hs _ => exact fun f hf => h f (hs ▸ List.mem_cons_of_mem _ hf)
  | cuts hs _ _ =>
      exact fun f hf => h f (hs ▸ List.mem_append_right _ (List.mem_cons_of_mem _ hf))
  | _ => exact h

/-! ## Records that rest -/

/-- The key is mapped to the object, and nothing works under it. -/
structure Rests (key : String) (ref : Nat) (s : State) : Prop where
  mapped : s.store.records.get? key = some ref
  apart : Apart key s.stack
  unlisted : Unlisted key s

theorem Rests.record? (h : Rests key ref s) : s.store.record? key = some (s.store.object ref) := by
  rw [Store.record?, h.mapped]
  rfl

/-- The object of another key. -/
theorem Amends.object {baseKey : String} {ref' : Nat} {old new : Store}
    (h : Amends baseKey ref' old new) (hs : old.Sound) (hget : old.records.get? key = some ref)
    (hbase : baseKey ≠ key) (hne : ref ≠ ref') : new.object ref = old.object ref := by
  rcases h.others ref hne with heq | ⟨hmapped, -⟩
  · exact heq
  · exact absurd (hs.inj _ _ _ hmapped hget) hbase

theorem Rests.ne_of_owns (h : Rests key ref s) (hheld : Held s) (hf : frame ∈ s.stack) {ref' : Nat}
    (ho : Owns s frame ref') : ref ≠ ref' := by
  rintro rfl
  rcases ho with heq | hget
  · exact (h.apart frame hf).1 (hheld.own frame hf key (heq ▸ h.mapped)).symm
  · exact (h.apart frame hf).1 (hheld.sound.inj _ _ _ hget h.mapped)

theorem Move.object (m : Move s frame rest events s') (hs : s.stack = frame :: rest)
    (hheld : Held s) (h : Rests key ref s) : s'.store.object ref = s.store.object ref := by
  have hmem : frame ∈ s.stack := hs ▸ List.mem_cons_self
  have hamend : ∀ {ref' store}, Amends frame.baseKey ref' s.store store → Owns s frame ref' →
      store.object ref = s.store.object ref :=
    fun ha ho => ha.object hheld.sound h.mapped (h.apart frame hmem).2 (h.ne_of_owns hheld hmem ho)
  cases m with
  | still => rfl
  | stray _ => rfl
  | raises _ _ hk _ => exact hamend hk.toAmends (.inl rfl)
  | awaits hk _ _ _ _ _ => exact hamend hk.toAmends (.inl rfl)
  | resumes hk _ => exact hamend hk.toAmends (.inl rfl)
  | dispatches _ _ hk _ => exact hamend hk.toAmends (.inl rfl)
  | enters _ _ _ hk _ _ => exact hamend hk.toAmends (.inl rfl)
  | chooses _ ha _ _ _ => exact hamend ha (.inl rfl)
  | leaves _ ho hk _ _ => exact hamend hk.toAmends ho
  | completes _ ho hk => exact hamend hk.toAmends ho
  | ends _ hk _ => exact hamend hk.toAmends (.inl rfl)
  | @repeats store _ _ _ _ hk _ _ _ =>
      have hlt : ref < store.objects.length := by
        rw [hk.length]
        exact hheld.sound.range _ _ h.mapped
      have hobject := hamend hk.toAmends (.inl rfl)
      exact (Store.object_put_of_lt (by exact hlt)).trans hobject
  | handled _ _ hk _ => exact hamend hk.toAmends (.inl rfl)
  | advances _ _ hk _ => exact hamend hk.toAmends (.inl rfl)

theorem step_object (hheld : Held s) (h : Rests key ref s)
    (hquiet : ∀ event ∈ (step questions s input).1, ¬ event.Enters key) :
    (step questions s input).2.store.object ref = s.store.object ref := by
  have e : Effect questions s input _ _ := step_effect s input
  generalize (step questions s input).1 = events at e hquiet
  generalize (step questions s input).2 = s' at e
  have hlt := hheld.sound.range _ _ h.mapped
  cases e with
  | refuses _ _ _ _ _ _ => exact Store.object_put_of_lt hlt
  | @opens d key' _ ref' _ _ _ _ hget _ _ hk _ _ =>
      have hne : key' ≠ key := hquiet _ (List.mem_singleton_self _)
      have hne' : ref ≠ ref' := by
        rintro rfl
        exact hne (hheld.sound.inj _ _ _ hget h.mapped)
      exact (hk ⟨d.node, d.path, d.item, key', key', ref', 0, .body⟩).toAmends.object hheld.sound
        h.mapped hne hne'
  | @makes d key' _ _ _ _ _ _ hk _ _ =>
      have hne : key' ≠ key := hquiet _ (List.mem_singleton_self _)
      have hput : (s.store.put key' (NodeRecord.new (nodeSignature d.node))).records.get? key =
          some ref := by
        rw [Store.records_put, Dict.get?_set_of_ne _ hne.symm]
        exact h.mapped
      exact ((hk ⟨d.node, d.path, d.item, key', key', s.store.objects.length, 0,
        .body⟩).toAmends.object (hheld.sound.put _ _) hput hne hlt.ne).trans
          (Store.object_put_of_lt hlt)
  | moves hs m => exact m.object hs hheld h
  | @cuts upper rest frame _ hs hk _ =>
      have hmem : frame ∈ s.stack := hs ▸ List.mem_append_right _ List.mem_cons_self
      exact hk.toAmends.object hheld.sound h.mapped (h.apart frame hmem).2
        (h.ne_of_owns hheld hmem (.inl rfl))
  | _ => rfl

/-- **A record nothing works under stays as it is.** -/
theorem step_rests (hplaced : Placed questions s) (hheld : Held s) (h : Rests key ref s)
    (hquiet : ∀ event ∈ (step questions s input).1, ¬ event.Enters key)
    (hfresh : Unclaimed key s) :
    Rests key ref (step questions s input).2 ∧
      (step questions s input).2.store.object ref = s.store.object ref :=
  ⟨⟨step_mapped hplaced h.unlisted hquiet hfresh h.mapped, step_apart h.apart hquiet hfresh,
    step_unlisted hplaced h.unlisted hfresh⟩, step_object hheld h hquiet⟩

/-! ## The guard of a delivered call -/

/-- A call is dispatched under the base key. -/
def Event.DispatchesFor (key : String) : Event → Prop
  | .dispatched _ baseKey _ _ _ _ => baseKey = key
  | _ => False

instance decidableDispatchesFor (key : String) (event : Event) :
    Decidable (event.DispatchesFor key) :=
  match event with
  | .dispatched _ baseKey _ _ _ _ => inferInstanceAs (Decidable (baseKey = key))
  | .entered .. | .repeated .. | .ended .. | .chose .. | .interrupted _ | .handled _ | .finished _
  | .raised => isFalse id

theorem MayInterrupt.no_dispatch (h : MayInterrupt frame events) :
    ∀ event ∈ events, ¬ event.DispatchesFor key := by
  rcases h with rfl | ⟨attempt, rfl⟩
  · exact fun event hmem => absurd hmem List.not_mem_nil
  · intro event hmem
    obtain rfl := List.mem_singleton.mp hmem
    exact id

theorem no_dispatch_of_apart (h : Apart key s.stack) :
    ∀ event ∈ (step questions s input).1, ¬ event.DispatchesFor key := by
  have e : Effect questions s input _ _ := step_effect s input
  generalize (step questions s input).1 = events at e
  generalize (step questions s input).2 = s' at e
  cases e with
  | moves hs m =>
      cases m with
      | raises _ hi _ _ => exact hi.no_dispatch
      | enters _ _ hi _ _ _ => exact hi.no_dispatch
      | leaves hi _ _ _ _ => exact hi.no_dispatch
      | dispatches _ _ _ _ =>
          intro event hmem hfor
          obtain rfl := List.mem_singleton.mp hmem
          exact (h _ (hs ▸ List.mem_cons_self)).2 hfor
      | _ => simp [Event.DispatchesFor]
  | fails _ _ hevent => rcases hevent with rfl | rfl | rfl <;> simp [Event.DispatchesFor]
  | _ => simp [Event.DispatchesFor]

/-- A node is looked up under the key that asks for something else than what has
been delivered. -/
def Event.Changes (key : String) (delivered : NodeRecord) : Event → Prop
  | .entered _ key' signature => key' = key ∧ delivered.signature ≠ some signature
  | _ => False

theorem Event.Changes.enters {delivered : NodeRecord} {event : Event}
    (h : event.Changes key delivered) : event.Enters key := by
  cases event with
  | entered => exact h.1
  | _ => exact h.elim

/-- The record found under the key is one of a call that is done, whenever a node
is looked up, and no other call goes into an invocation under the key. -/
structure StillDone (questions : Questions) (key : String) (delivered : NodeRecord)
    (_log : List (Input × List Event)) (s : State) (_input : Input) : Prop where
  call : ∀ d, s.control = .enter d → (nodeKey questions d.node s.executor).1 = key →
    delivered.signature ≠ some (nodeSignature d.node) → d.node.isCall
  first : ∀ d, s.control = .enter d → (nodeKey questions d.node s.executor).1 = key →
    ∀ record, s.store.record? key = some record → record.status = .done
  apart : Unclaimed key s

/-- What the guard leaves of the delivered record. -/
def Refused (delivered record : NodeRecord) : Prop :=
  ∃ signature, record = NodeRecord.changed signature delivered

/-- A run that reaches the changed call goes straight to its end. -/
def EndsBlocked (key : String) (delivered : NodeRecord) (events : List Event) : Prop :=
  ∀ pre post event, events = pre ++ event :: post → event.Changes key delivered →
    post = [] ∨ ∃ post', post = .finished .blocked :: post'

/-- Where the guard stands: not reached, on the way out of the run that reached
it, or past that. -/
inductive Guard (key : String) (delivered : NodeRecord) (events : List Event) (s : State)
    (ref : Nat) : Prop where
  | ahead : s.store.object ref = delivered → (∀ event ∈ events, ¬ event.Changes key delivered) →
      Guard key delivered events s ref
  | leaving {pre : List Event} {event : Event} : Refused delivered (s.store.object ref) →
      s.control = .returning .blocked → events = pre ++ [event] →
      (∀ event ∈ pre, ¬ event.Changes key delivered) → Guard key delivered events s ref
  | past {pre post : List Event} {event : Event} : Refused delivered (s.store.object ref) →
      events = pre ++ event :: .finished .blocked :: post →
      (∀ event ∈ pre, ¬ event.Changes key delivered) →
      (∀ event ∈ post, ¬ event.Changes key delivered) → Guard key delivered events s ref

/-- Events are split in one way at the only one of its kind. -/
theorem post_of_split (kind : Event → Prop) {pre pre' post post' : List Event}
    {event event' : Event} (h : pre ++ event :: post = pre' ++ event' :: post')
    (hevent' : kind event') (hpre : ∀ e ∈ pre, ¬ kind e) (hpost : ∀ e ∈ post, ¬ kind e) :
    post = post' := by
  rcases List.append_eq_append_iff.mp h with ⟨mid, hpre', htail⟩ | ⟨mid, hpre', htail⟩
  · cases mid with
    | nil => exact (List.cons.inj htail).2
    | cons e mid =>
        obtain ⟨-, htail⟩ := List.cons.inj htail
        have hmem : event' ∈ post := htail ▸ List.mem_append_right _ List.mem_cons_self
        exact absurd hevent' (hpost event' hmem)
  · cases mid with
    | nil => exact (List.cons.inj htail).2.symm
    | cons e mid =>
        obtain ⟨rfl, -⟩ := List.cons.inj htail
        have hmem : event' ∈ pre := hpre' ▸ List.mem_append_right _ List.mem_cons_self
        exact absurd hevent' (hpre event' hmem)

theorem Guard.endsBlocked {delivered : NodeRecord} (h : Guard key delivered events s ref) :
    EndsBlocked key delivered events := by
  intro pre post event heq hevent
  cases h with
  | ahead _ hno => exact absurd hevent (hno event (heq ▸ List.mem_append_right _ List.mem_cons_self))
  | leaving _ _ heq' hpre =>
      rw [heq'] at heq
      refine .inl (post_of_split (Event.Changes key delivered) heq hevent hpre ?_).symm
      exact fun e he => absurd he List.not_mem_nil
  | past _ heq' hpre hpost =>
      rw [heq'] at heq
      refine .inr ⟨_, (post_of_split (Event.Changes key delivered) heq hevent hpre ?_).symm⟩
      intro e he
      rcases List.mem_cons.mp he with rfl | he
      · exact id
      · exact hpost e he

/-- The frames hand a blocked node on. -/
theorem returnTo_blocked (frame : Frame) (rest : List Frame) (now : Rat) (s : State) :
    (returnTo frame rest .blocked now s).1 = [] ∧
      (returnTo frame rest .blocked now s).2.control = .returning .blocked := by
  unfold returnTo
  split <;> exact ⟨rfl, rfl⟩

/-- On the way out nothing happens but the end of the run. -/
theorem step_returning_blocked (input : Input) (hc : s.control = .returning .blocked) :
    (step questions s input).1 = [] ∧ (step questions s input).2.control = .returning .blocked ∨
      (step questions s input).1 = [.finished .blocked] := by
  unfold step
  split
  · next h _ => cases h.symm.trans hc
  · next h _ => cases h.symm.trans hc
  · next h _ => cases h.symm.trans hc
  · next status h _ =>
      obtain rfl := Control.returning.inj (h.symm.trans hc)
      split
      · exact .inr rfl
      · exact .inl (returnTo_blocked ..)
  · next h _ => cases h.symm.trans hc
  · next h _ => cases h.symm.trans hc
  · next h _ => cases h.symm.trans hc
  · next h _ => cases h.symm.trans hc
  · exact .inl ⟨rfl, hc⟩

/-- The guard refuses a changed call. -/
theorem enterNode_refuses {d : Dispatch} {now : Rat}
    (hget : s.store.records.get? (nodeKey questions d.node s.executor).1 = some ref)
    (hsig : (s.store.object ref).signature ≠ some (nodeSignature d.node))
    (hdone : (s.store.object ref).status = .done) (hcall : d.node.isCall)
    (hdelivered : (s.store.object ref).delivered.isSome) :
    enterNode questions d now s =
      ([.entered d.path (nodeKey questions d.node s.executor).1 (nodeSignature d.node)],
        { s with
          store := s.store.put (nodeKey questions d.node s.executor).1
            (NodeRecord.changed (nodeSignature d.node) (s.store.object ref))
          executor := (nodeKey questions d.node s.executor).2
          control := .returning .blocked }) := by
  unfold enterNode
  simp only [hget, hsig, hdone, hcall, hdelivered, ne_eq, not_false_eq_true, if_true, and_self]

/-- A call that is done is not run again. -/
theorem enterNode_found {d : Dispatch} (now : Rat)
    (hget : s.store.records.get? (nodeKey questions d.node s.executor).1 = some ref)
    (hsig : (s.store.object ref).signature = some (nodeSignature d.node))
    (hdone : (s.store.object ref).status = .done) :
    ∃ results, enterNode questions d now s =
      ([.entered d.path (nodeKey questions d.node s.executor).1 (nodeSignature d.node)],
        { s with
          executor := { (nodeKey questions d.node s.executor).2 with results }
          control := .returning .done }) := by
  unfold enterNode
  simp only [hget, hsig, hdone, ne_eq, not_true_eq_false, if_false, if_true]
  exact ⟨_, rfl⟩

theorem nodeKey_history (node : WorkNode) (executor : Executor) :
    (nodeKey questions node executor).2.repeatHistory = executor.repeatHistory := by
  unfold nodeKey
  split
  · split <;> rfl
  · rfl

theorem get?_keys_zipIdx {records : Dict String NodeRecord} {delivered : NodeRecord}
    (h : records.get? key = some delivered) (start : Nat) :
    ∃ i, Dict.get? ((records.map Prod.fst).zipIdx start) key = some (start + i) ∧
      (records.map Prod.snd)[i]? = some delivered := by
  induction records generalizing start with
  | nil => cases h
  | cons entry records ih =>
      obtain ⟨key', record⟩ := entry
      rw [Dict.get?_cons] at h
      rw [List.map_cons, List.zipIdx_cons, Dict.get?_cons]
      split at h
      · next heq =>
          rw [if_pos heq]
          exact ⟨0, rfl, h⟩
      · next hne =>
          obtain ⟨i, hi, hrecord⟩ := ih h (start + 1)
          rw [if_neg hne]
          exact ⟨i + 1, by rw [hi]; congr 1; omega, hrecord⟩

theorem Store.get?_ofRecords {records : Dict String NodeRecord} {delivered : NodeRecord}
    (h : records.get? key = some delivered) :
    ∃ ref, (Store.ofRecords records).records.get? key = some ref ∧
      (Store.ofRecords records).object ref = delivered := by
  obtain ⟨i, hi, hrecord⟩ := get?_keys_zipIdx h 0
  refine ⟨i, hi.trans (by rw [Nat.zero_add]), ?_⟩
  rw [Store.object, show (Store.ofRecords records).objects[i]? = some delivered from hrecord]
  rfl

/-- What holds along the run. -/
structure Guarded (questions : Questions) (key : String) (delivered : NodeRecord)
    (events : List Event) (s : State) : Prop where
  placed : Placed questions s
  held : Held s
  guard : ∃ ref, Rests key ref s ∧ Guard key delivered events s ref
  dispatch : ∀ event ∈ events, ¬ event.DispatchesFor key

theorem Guarded.start {plan : WorkPlan} {records : Dict String NodeRecord} {delivered : NodeRecord}
    (hstart : StartsWith plan records s) (hget : records.get? key = some delivered) :
    Guarded questions key delivered [] s where
  placed := ⟨fun _ => hstart.stack, by simp [hstart.stack, Stacked],
    fun d hd => by simp [hstart.control] at hd⟩
  held := held_of (hstart.store ▸ Store.sound_ofRecords records) (by simp [hstart.stack])
  guard := by
    obtain ⟨ref, hmapped, hobject⟩ := Store.get?_ofRecords hget
    rw [← hstart.store] at hmapped hobject
    have hrests : Rests key ref s :=
      { mapped := hmapped
        apart := fun frame hf => by simp [hstart.stack] at hf
        unlisted := fun hno => absurd hstart.control hno }
    exact ⟨ref, hrests, .ahead hobject fun event hmem => absurd hmem List.not_mem_nil⟩
  dispatch := fun event hmem => absurd hmem List.not_mem_nil

/-- The changed call, or the delivered one, is looked up under the key. -/
theorem Guarded.enter {delivered : NodeRecord} {d : Dispatch} {now : Rat}
    (hrests : Rests key ref s) (hguard : Guard key delivered events s ref)
    (hmark : delivered.delivered.isSome) (hd : s.control = .enter d)
    (hkey : (nodeKey questions d.node s.executor).1 = key)
    (hdone : (s.store.object ref).status = .done)
    (hcall : delivered.signature ≠ some (nodeSignature d.node) → d.node.isCall) :
    ∃ ref', Rests key ref' (enterNode questions d now s).2 ∧
      Guard key delivered (events ++ (enterNode questions d now s).1)
        (enterNode questions d now s).2 ref' := by
  have hunlisted : ∀ base history,
      (nodeKey questions d.node s.executor).2.repeatHistory.get? base = some history →
        key ∉ history := by
    rw [nodeKey_history]
    exact hrests.unlisted (by rw [hd]; simp)
  have hget := hrests.mapped
  rw [← hkey] at hget
  cases hguard with
  | ahead hobject hno =>
      by_cases hsig : delivered.signature = some (nodeSignature d.node)
      · obtain ⟨results, heq⟩ := enterNode_found now hget (hobject ▸ hsig) hdone
        rw [heq]
        refine ⟨ref, ⟨hrests.mapped, hrests.apart, fun _ => hunlisted⟩, .ahead hobject ?_⟩
        intro event hmem
        rcases List.mem_append.mp hmem with hmem | hmem
        · exact hno event hmem
        · obtain rfl := List.mem_singleton.mp hmem
          exact fun h => h.2 hsig
      · rw [enterNode_refuses hget (hobject ▸ hsig) hdone (hcall hsig) (hobject ▸ hmark), hkey, hobject]
        refine ⟨s.store.objects.length, ⟨?_, hrests.apart, fun _ => hunlisted⟩,
          .leaving ⟨nodeSignature d.node, ?_⟩ rfl rfl hno⟩
        · rw [Store.records_put, Dict.get?_set_self]
        · exact Store.object_put_self
  | leaving _ hc _ _ => cases hd.symm.trans hc
  | past hrefused _ _ _ =>
      obtain ⟨signature, heq⟩ := hrefused
      rw [heq] at hdone
      cases hdone

theorem Guarded.step {delivered : NodeRecord} {log : List (Input × List Event)} {input : Input}
    (h : Guarded questions key delivered events s) (hmark : delivered.delivered.isSome)
    (hok : StillDone questions key delivered log s input) :
    Guarded questions key delivered (events ++ (WorkRuntime.step questions s input).1)
      (WorkRuntime.step questions s input).2 := by
  obtain ⟨ref, hrests, hguard⟩ := h.guard
  refine ⟨step_placed h.placed input, step_held h.held input, ?_, ?_⟩
  · by_cases hentered : ∃ d, s.control = .enter d ∧ (nodeKey questions d.node s.executor).1 = key
    · obtain ⟨d, hd, hkey⟩ := hentered
      rcases step_enter questions input hd with heq | heq
      · rw [heq]
        exact Guarded.enter hrests hguard hmark hd hkey (hok.first d hd hkey _ hrests.record?)
          (hok.call d hd hkey)
      · rw [heq, List.append_nil]
        exact ⟨ref, hrests, hguard⟩
    · have hquiet : ∀ event ∈ (WorkRuntime.step questions s input).1, ¬ event.Enters key :=
        fun event hmem henters => hentered (control_of_enters hmem henters)
      obtain ⟨hrests', hobject⟩ := step_rests h.placed h.held hrests hquiet hok.apart
      refine ⟨ref, hrests', ?_⟩
      cases hguard with
      | ahead hdelivered hno =>
          refine .ahead (hobject.trans hdelivered) fun event hmem => ?_
          rcases List.mem_append.mp hmem with hmem | hmem
          · exact hno event hmem
          · exact fun hchanges => hquiet event hmem hchanges.enters
      | @leaving pre event hrefused hc heq hpre =>
          rw [← hobject] at hrefused
          rcases step_returning_blocked input hc with ⟨hevents, hcontrol⟩ | hevents
          · exact .leaving hrefused hcontrol (by rw [hevents, List.append_nil, heq]) hpre
          · have hends : events ++ (WorkRuntime.step questions s input).1 =
                pre ++ event :: .finished .blocked :: [] := by
              rw [hevents, heq, List.append_assoc]
              rfl
            exact .past hrefused hends hpre fun event hmem => absurd hmem List.not_mem_nil
      | @past pre post event hrefused heq hpre hpost =>
          rw [← hobject] at hrefused
          have hends : events ++ (WorkRuntime.step questions s input).1 = pre ++ event ::
              .finished .blocked :: (post ++ (WorkRuntime.step questions s input).1) := by
            rw [heq, List.append_assoc]
            rfl
          refine .past hrefused hends hpre fun event hmem => ?_
          rcases List.mem_append.mp hmem with hmem | hmem
          · exact hpost event hmem
          · exact fun hchanges => hquiet event hmem hchanges.enters
  · intro event hmem
    rcases List.mem_append.mp hmem with hmem | hmem
    · exact h.dispatch event hmem
    · exact no_dispatch_of_apart hrests.apart event hmem

end

/-- **A delivered call is not replayed** in a run that reaches its changed
revision no second time: the run that reaches it ends blocked, and the delivered
result stays in the store. -/
theorem delivered_not_replayed (questions : Questions) (plan : WorkPlan)
    (records : Dict String NodeRecord) (key : String) (delivered : NodeRecord)
    (hget : records.get? key = some delivered) (hmark : delivered.delivered.isSome) (s₀ s : State) (hstart : StartsWith plan records s₀)
    (log : List (Input × List Event))
    (hrun : Run (step questions) (StillDone questions key delivered) s₀ log s) :
    (∀ event ∈ eventsOf log, ¬ event.DispatchesFor key) ∧
    EndsBlocked key delivered (eventsOf log) ∧
    ∃ record, s.store.record? key = some record ∧
      (record = delivered ∧ (∀ event ∈ eventsOf log, ¬ event.Changes key delivered) ∨
        Refused delivered record) := by
  have h : Guarded questions key delivered (eventsOf log) s := by
    refine hrun.invariant (P := fun log s => Guarded questions key delivered (eventsOf log) s)
      (.start hstart hget) fun log s input _ hok h => ?_
    rw [eventsOf_append_singleton]
    exact h.step hmark hok
  obtain ⟨ref, hrests, hguard⟩ := h.guard
  refine ⟨h.dispatch, hguard.endsBlocked, s.store.object ref, hrests.record?, ?_⟩
  cases hguard with
  | ahead hobject hno => exact .inl ⟨hobject, hno⟩
  | leaving hrefused _ _ _ => exact .inr hrefused
  | past hrefused _ _ _ => exact .inr hrefused

/-! ### A changed call that is run again -/

def mineCall (block : String) : WorkNode :=
  .call ⟨some "mine", none, none, []⟩ "mine_block" (.obj [("block", .str block)])

/-- The log has been mined. -/
def minedLog : NodeRecord :=
  { NodeRecord.new (nodeSignature (mineCall "oak_log")) with
    status := .done
    result := some [("success", .bool true)]
    delivered := some (.obj [("tool", .str "mine_block"), ("execution_channel", .bool true)]) }

/-- A plan that mines sand instead. -/
def mineSand : WorkPlan := ⟨1800, mineCall "sand", none⟩

def revised : State :=
  ⟨.ofRecords [("mine", minedLog)], ⟨mineSand, false, 1800, [], [], []⟩, [], .idle⟩

/-- One run of it. -/
def refusedRun : List Input := atOnce [.run, .proceed, .proceed]

/-- A run that goes on to the call. -/
def callRun : List Input := atOnce [.run, .proceed, .proceed, .state (.ok (.obj []))]

theorem StillDone.of_quiet {questions : Questions} {key : String} {delivered : NodeRecord}
    {log : List (Input × List Event)} {s : State} {input : Input}
    (hc : ∀ d, s.control ≠ .enter d) (hs : s.stack = []) :
    StillDone questions key delivered log s input where
  call d hd := absurd hd (hc d)
  first d hd := absurd hd (hc d)
  apart frame rest heq := by
    rw [hs] at heq
    cases heq

theorem delivered_not_replayed_refused :
    (∀ event ∈ eventsOf (exec (step asking) revised refusedRun).1, ¬ event.DispatchesFor "mine") ∧
    EndsBlocked "mine" minedLog (eventsOf (exec (step asking) revised refusedRun).1) ∧
    ∃ record, (exec (step asking) revised refusedRun).2.store.record? "mine" = some record ∧
      (record = minedLog ∧
          (∀ event ∈ eventsOf (exec (step asking) revised refusedRun).1,
            ¬ event.Changes "mine" minedLog) ∨
        Refused minedLog record) := by
  have hstart : Run (step asking) (StillDone asking "mine" minedLog) revised [] revised := .start
  have hrun := hstart.next ⟨.run, 0⟩ (.of_quiet (fun d hd => by cases hd) rfl)
  have hfirst : StillDone asking "mine" minedLog ([] ++ [(⟨.run, 0⟩, (step asking revised ⟨.run, 0⟩).1)])
      (step asking revised ⟨.run, 0⟩).2 ⟨.proceed, 0⟩ :=
    { call := fun d hd _ _ => by
        obtain rfl := Control.enter.inj hd
        rfl
      first := fun d hd _ record hrecord => by
        obtain rfl := Option.some.inj hrecord
        rfl
      apart := fun frame rest heq => by cases heq }
  have hrefused := (hrun.next ⟨.proceed, 0⟩ hfirst).next ⟨.proceed, 0⟩
    (.of_quiet (fun d hd => by cases hd) rfl)
  exact delivered_not_replayed asking mineSand [("mine", minedLog)] "mine" minedLog rfl rfl revised _
    ⟨rfl, rfl, rfl, rfl⟩ _ hrefused

/-- The second run finds the record that the first one has put there, and mines
the sand. -/
theorem changed_call_dispatched :
    minedLog.status = .done ∧ minedLog.delivered.isSome ∧
      minedLog.signature ≠ some (nodeSignature (mineCall "sand")) ∧
      StartsWith mineSand [("mine", minedLog)] revised ∧
      ∃ event ∈ eventsOf (exec (step asking) revised (refusedRun ++ callRun)).1,
        event.DispatchesFor "mine" := by
  refine ⟨rfl, rfl, by decide +kernel, ⟨rfl, rfl, rfl, rfl⟩, ?_⟩
  decide +kernel

end WorkRuntime

end MineBot
