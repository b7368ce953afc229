import Mathlib
import MineBot.WorkGuards

/-!
# Calls that have ended

A call that ends with the choice `next_step` marks the record of the invocation
it is in. In its first invocation that is the record under its own key, which
every later run finds done; in a repeat it is the record of the repeat, and the
record under the call's own key stays active.

`ended_not_dispatched` is about the runs that look up a call that has ended only
where it has ended in its first invocation.
-/

namespace MineBot

namespace WorkRuntime

/-- A call under the base key ends. -/
def Event.EndsFor (key : String) : Event → Prop
  | .ended _ baseKey _ => baseKey = key
  | _ => False

/-! ## The frame that works under a key -/

/-- At most one frame has the base key, and its record is the one mapped to the
key as long as it is in its first invocation. -/
inductive Works (key : String) (records : Dict String Nat) : List Frame → Prop where
  | none {stack : List Frame} : Apart key stack → Works key records stack
  | top {frame : Frame} {rest : List Frame} : frame.baseKey = key →
      (frame.key = key → records.get? key = some frame.ref) → Apart key rest →
      Works key records (frame :: rest)
  | under {frame : Frame} {rest : List Frame} : frame.key ≠ key → frame.baseKey ≠ key →
      Works key records rest → Works key records (frame :: rest)

section

variable {questions : Questions} {s s' : State} {frame : Frame} {rest : List Frame}
variable {events : List Event} {key : String} {ref : Nat} {input : Input}
variable {records records' : Dict String Nat} {stack upper : List Frame}

theorem Works.tail (h : Works key records (frame :: rest)) : Works key records rest := by
  cases h with
  | none hapart => exact .none fun f hf => hapart f (List.mem_cons_of_mem _ hf)
  | top _ _ hapart => exact .none hapart
  | under _ _ h => exact h

theorem Works.suffix (h : Works key records (upper ++ rest)) : Works key records rest := by
  induction upper with
  | nil => exact h
  | cons frame upper ih => exact ih h.tail

theorem Works.keep (h : Works key records stack)
    (hget : ∀ ref, records.get? key = some ref → records'.get? key = some ref) :
    Works key records' stack := by
  induction h with
  | none hapart => exact .none hapart
  | top hbase hmapped hapart => exact .top hbase (fun heq => hget _ (hmapped heq)) hapart
  | under hkey hbase _ ih => exact .under hkey hbase ih

theorem Works.phase (h : Works key records (frame :: rest)) (phase : Phase) :
    Works key records ({ frame with phase } :: rest) := by
  cases h with
  | none hapart =>
      obtain ⟨hframe, hrest⟩ := List.forall_mem_cons.mp hapart
      exact .none (List.forall_mem_cons.mpr ⟨hframe, hrest⟩)
  | top hbase hmapped hapart => exact .top hbase hmapped hapart
  | under hkey hbase h => exact .under hkey hbase h

/-- The frame goes into an invocation under another key. -/
theorem Works.invocation (h : Works key records (frame :: rest)) {frame' : Frame}
    (hbase : frame'.baseKey = frame.baseKey) (hkey : frame'.key ≠ key) :
    Works key records (frame' :: rest) := by
  cases h with
  | none hapart =>
      obtain ⟨hframe, hrest⟩ := List.forall_mem_cons.mp hapart
      exact .none (List.forall_mem_cons.mpr ⟨⟨hkey, hbase ▸ hframe.2⟩, hrest⟩)
  | top hbase' _ hapart => exact .top (hbase.trans hbase') (fun heq => absurd heq hkey) hapart
  | under _ hbase' h => exact .under hkey (hbase ▸ hbase') h

theorem Works.apart (h : Works key records stack) (hnone : ∀ f ∈ stack, f.baseKey ≠ key) :
    Apart key stack := by
  induction h with
  | none hapart => exact hapart
  | top hbase _ _ => exact absurd hbase (hnone _ List.mem_cons_self)
  | under hkey hbase _ ih =>
      exact List.forall_mem_cons.mpr
        ⟨⟨hkey, hbase⟩, ih fun f hf => hnone f (List.mem_cons_of_mem _ hf)⟩

theorem Works.of_top (h : Works key records (frame :: rest)) (hbase : frame.baseKey = key) :
    (frame.key = key → records.get? key = some frame.ref) ∧ Apart key rest := by
  cases h with
  | none hapart => exact absurd hbase (hapart _ List.mem_cons_self).2
  | top _ hmapped hapart => exact ⟨hmapped, hapart⟩
  | under _ hne _ => exact absurd hbase hne

theorem Move.works (m : Move s frame rest events s') (hs : s.stack = frame :: rest)
    (h : Works key records s.stack)
    (hfresh : repeatKey frame.baseKey (frame.invocation + 1) ≠ key) :
    Works key records s'.stack := by
  rw [hs] at h
  cases m with
  | still => exact hs ▸ h
  | stray _ => exact hs ▸ h
  | raises _ _ _ _ => exact h
  | awaits _ _ _ _ _ _ => exact h.phase _
  | resumes _ _ => exact h.phase _
  | dispatches _ _ _ _ => exact h.phase _
  | enters _ _ _ _ _ _ => exact h.phase _
  | chooses _ _ _ _ _ => exact h.phase _
  | leaves _ _ _ _ _ => exact h.tail
  | completes _ _ _ => exact h.tail
  | ends _ _ _ => exact h.tail
  | repeats _ _ _ _ _ => exact h.invocation rfl hfresh
  | handled _ _ _ _ => exact h.phase _
  | advances _ _ _ _ => exact h.phase _

/-- A node is looked up under the key, where no frame has it. -/
theorem works_of_entry (hentry : ∃ event ∈ (step questions s input).1, event.Enters key)
    (h : Apart key s.stack) :
    Works key (step questions s input).2.store.records (step questions s input).2.stack := by
  obtain ⟨event, hmem, hentry⟩ := hentry
  have e : Effect questions s input _ _ := step_effect s input
  generalize (step questions s input).1 = events at e hmem
  generalize (step questions s input).2 = s' at e
  cases e with
  | @opens d key' _ ref' _ _ _ _ hget _ _ hk _ _ =>
      obtain rfl := List.mem_singleton.mp hmem
      obtain rfl : key' = key := hentry
      exact .top rfl (fun _ => (hk ⟨d.node, d.path, d.item, key', key', ref', 0, .body⟩).records ▸
        hget) h
  | @makes d key' _ _ _ _ _ _ hk _ _ =>
      obtain rfl := List.mem_singleton.mp hmem
      obtain rfl : key' = key := hentry
      refine .top rfl (fun _ => ?_) h
      rw [(hk ⟨d.node, d.path, d.item, key', key', s.store.objects.length, 0, .body⟩).records,
        Store.records_put, Dict.get?_set_self]
  | moves _ m => exact absurd hentry (m.no_entry event hmem)
  | start _ _ => cases hmem
  | unwinds _ _ => cases hmem
  | cuts _ _ _ => cases hmem
  | _ => exact .none h

theorem step_works (hplaced : Placed questions s) (hunlisted : Unlisted key s)
    (hnested : ∀ d, s.control = .enter d → (nodeKey questions d.node s.executor).1 = key →
      ∀ f ∈ s.stack, f.baseKey ≠ key)
    (hfresh : Unclaimed key s) (h : Works key s.store.records s.stack) :
    Works key (step questions s input).2.store.records (step questions s input).2.stack := by
  by_cases hentry : ∃ event ∈ (step questions s input).1, event.Enters key
  · have hnone : ∀ f ∈ s.stack, f.baseKey ≠ key := by
      obtain ⟨event, hmem, hevent⟩ := hentry
      obtain ⟨d, hd, hkey⟩ := control_of_enters hmem hevent
      exact hnested d hd hkey
    exact works_of_entry hentry (h.apart hnone)
  · have hquiet : ∀ event ∈ (step questions s input).1, ¬ event.Enters key :=
      fun event hmem hevent => hentry ⟨event, hmem, hevent⟩
    have hkept : Works key (step questions s input).2.store.records s.stack :=
      h.keep fun ref hget => step_mapped hplaced hunlisted hquiet hfresh hget
    have e : Effect questions s input _ _ := step_effect s input
    generalize (step questions s input).1 = events at e hquiet
    generalize (step questions s input).2 = s' at e hkept
    cases e with
    | start _ _ => exact .none fun f hf => absurd hf List.not_mem_nil
    | opens _ _ _ _ _ _ _ =>
        have hne := hquiet _ (List.mem_singleton_self _)
        exact .under hne hne hkept
    | makes _ _ _ _ _ =>
        have hne := hquiet _ (List.mem_singleton_self _)
        exact .under hne hne hkept
    | moves hs m => exact m.works hs hkept (hfresh _ _ hs)
    | unwinds hs _ =>
        rw [hs] at hkept
        exact hkept.tail
    | cuts hs _ _ =>
        rw [hs] at hkept
        exact Works.tail (Works.suffix hkept)
    | _ => exact hkept

/-! ## The end of a call -/

theorem MayInterrupt.no_end (h : MayInterrupt frame events) :
    ∀ event ∈ events, ¬ event.EndsFor key := by
  rcases h with rfl | ⟨attempt, rfl⟩
  · exact fun event hmem => absurd hmem List.not_mem_nil
  · intro event hmem
    obtain rfl := List.mem_singleton.mp hmem
    exact id

/-- A call that ends is the top frame, and the record of its invocation is done. -/
structure Ending (questions : Questions) (key : String) (s : State) (input : Input) (frame : Frame)
    (rest : List Frame) : Prop where
  top : s.stack = frame :: rest
  base : frame.baseKey = key
  events : (step questions s input).1 = [.ended frame.path key frame.key]
  stack : (step questions s input).2.stack = rest
  records : (step questions s input).2.store.records = s.store.records
  done : ((step questions s input).2.store.object frame.ref).status = .done

theorem ending_of_mem (hheld : Held s) {event : Event} (hmem : event ∈ (step questions s input).1)
    (h : event.EndsFor key) : ∃ frame rest, Ending questions key s input frame rest := by
  have e : Effect questions s input _ _ := step_effect s input
  generalize hevents : (step questions s input).1 = events at e hmem
  generalize hstep : (step questions s input).2 = s' at e
  cases e with
  | @moves frame rest _ _ hs m =>
      cases m with
      | raises _ hi _ _ => exact absurd h (hi.no_end event hmem)
      | enters _ _ hi _ _ _ => exact absurd h (hi.no_end event hmem)
      | leaves hi _ _ _ _ => exact absurd h (hi.no_end event hmem)
      | ends _ hk hdone =>
          obtain rfl := List.mem_singleton.mp hmem
          obtain rfl : frame.baseKey = key := h
          refine ⟨frame, rest, hs, rfl, hevents, by rw [hstep], by rw [hstep]; exact hk.records, ?_⟩
          rw [hstep]
          exact hdone (hheld.range frame (hs ▸ List.mem_cons_self))
      | _ => simp [Event.EndsFor] at hmem h <;> simp [hmem] at h
  | fails _ _ hevent =>
      obtain rfl := List.mem_singleton.mp hmem
      rcases hevent with rfl | rfl | rfl <;> exact h.elim
  | _ => simp [Event.EndsFor] at hmem h <;> simp [hmem] at h

theorem no_end_of_apart (hheld : Held s) (h : Apart key s.stack) :
    ∀ event ∈ (step questions s input).1, ¬ event.EndsFor key := by
  intro event hmem hevent
  obtain ⟨frame, rest, hending⟩ := ending_of_mem hheld hmem hevent
  exact (h frame (hending.top ▸ List.mem_cons_self)).2 hending.base

/-! ## The course of a call -/

/-- A call that has ended is looked up only where it has ended in its first
invocation and is the call it was; none is looked up while its frame is there,
and no other call goes into an invocation under its key. -/
structure EndsFirst (questions : Questions) (key : String) (log : List (Input × List Event))
    (s : State) (_input : Input) : Prop where
  first : ∀ d, s.control = .enter d → (nodeKey questions d.node s.executor).1 = key →
    ∀ path callId, .ended path key callId ∈ eventsOf log → callId = key
  alike : ∀ d, s.control = .enter d → (nodeKey questions d.node s.executor).1 = key →
    ∀ path callId, .ended path key callId ∈ eventsOf log →
      ∀ record, s.store.record? key = some record →
        record.signature = some (nodeSignature d.node)
  nested : ∀ d, s.control = .enter d → (nodeKey questions d.node s.executor).1 = key →
    ∀ frame ∈ s.stack, frame.baseKey ≠ key
  apart : Unclaimed key s

/-- Where the call stands: not ended, or ended, and then at rest. -/
inductive Course (key : String) (events : List Event) (s : State) : Prop where
  | running : (∀ event ∈ events, ¬ event.EndsFor key) → Works key s.store.records s.stack →
      Course key events s
  | ended {pre post : List Event} {path : Path} {callId : String} :
      events = pre ++ .ended path key callId :: post → (∀ event ∈ pre, ¬ event.EndsFor key) →
      (∀ event ∈ post, ¬ event.EndsFor key) → (∀ event ∈ post, ¬ event.DispatchesFor key) →
      Apart key s.stack →
      (callId = key → ∃ ref, s.store.records.get? key = some ref ∧
        (s.store.object ref).status = .done) → Course key events s

/-- A call that has ended in its first invocation is found done. -/
theorem found_done {d : Dispatch} (input : Input) (hd : s.control = .enter d)
    (hkey : (nodeKey questions d.node s.executor).1 = key)
    (hget : s.store.records.get? key = some ref) (hdone : (s.store.object ref).status = .done)
    (hsig : (s.store.object ref).signature = some (nodeSignature d.node)) :
    (step questions s input).2.stack = s.stack ∧ (step questions s input).2.store = s.store := by
  rcases step_enter questions input hd with heq | heq
  · rw [← hkey] at hget
    obtain ⟨results, hfound⟩ := enterNode_found input.now hget hsig hdone
    rw [heq, hfound]
    exact ⟨rfl, rfl⟩
  · rw [heq]
    exact ⟨rfl, rfl⟩

/-- What holds along the run. -/
structure Followed (questions : Questions) (key : String) (events : List Event) (s : State) :
    Prop where
  placed : Placed questions s
  held : Held s
  unlisted : Unlisted key s
  course : Course key events s

theorem Followed.start {plan : WorkPlan} {records : Dict String NodeRecord}
    (h : StartsWith plan records s) : Followed questions key [] s where
  placed := ⟨fun _ => h.stack, by simp [h.stack, Stacked], fun d hd => by simp [h.control] at hd⟩
  held := held_of (h.store ▸ Store.sound_ofRecords records) (by simp [h.stack])
  unlisted := fun hno => absurd h.control hno
  course := .running (fun event hmem => absurd hmem List.not_mem_nil)
    (.none fun frame hf => by simp [h.stack] at hf)

/-- The step of a call that has not ended. -/
theorem Followed.goesOn {log : List (Input × List Event)} (hplaced : Placed questions s)
    (hheld : Held s) (hunlisted : Unlisted key s) (hno : ∀ event ∈ events, ¬ event.EndsFor key)
    (hworks : Works key s.store.records s.stack) (hok : EndsFirst questions key log s input) :
    Course key (events ++ (step questions s input).1) (step questions s input).2 := by
  by_cases hend : ∃ event ∈ (step questions s input).1, event.EndsFor key
  · obtain ⟨event, hmem, hevent⟩ := hend
    obtain ⟨frame, rest, hending⟩ := ending_of_mem hheld hmem hevent
    rw [hending.top] at hworks
    obtain ⟨hmapped, hrest⟩ := hworks.of_top hending.base
    refine .ended (by rw [hending.events]) hno (fun event hmem => absurd hmem List.not_mem_nil)
      (fun event hmem => absurd hmem List.not_mem_nil) (hending.stack ▸ hrest) fun heq => ?_
    exact ⟨frame.ref, hending.records ▸ hmapped heq, hending.done⟩
  · refine .running (fun event hmem hevent => ?_)
      (step_works hplaced hunlisted hok.nested hok.apart hworks)
    rcases List.mem_append.mp hmem with hmem | hmem
    · exact hno event hmem hevent
    · exact hend ⟨event, hmem, hevent⟩

/-- The step of a call that has ended leaves it at rest. -/
theorem Followed.stays {log : List (Input × List Event)} {path : Path} {callId : String}
    (hplaced : Placed questions s) (hheld : Held s) (hunlisted : Unlisted key s)
    (hapart : Apart key s.stack)
    (hdone : callId = key → ∃ ref, s.store.records.get? key = some ref ∧
      (s.store.object ref).status = .done)
    (hended : .ended path key callId ∈ eventsOf log) (hok : EndsFirst questions key log s input) :
    Apart key (step questions s input).2.stack ∧
      (callId = key → ∃ ref, (step questions s input).2.store.records.get? key = some ref ∧
        ((step questions s input).2.store.object ref).status = .done) := by
  by_cases hentry : ∃ event ∈ (step questions s input).1, event.Enters key
  · obtain ⟨event, hmem, hevent⟩ := hentry
    obtain ⟨d, hd, hkey⟩ := control_of_enters hmem hevent
    obtain ⟨ref, hget, hstatus⟩ := hdone (hok.first d hd hkey path callId hended)
    have hrecord : s.store.record? key = some (s.store.object ref) := by
      rw [Store.record?, hget]
      rfl
    obtain ⟨hstack, hstore⟩ := found_done input hd hkey hget hstatus
      (hok.alike d hd hkey path callId hended _ hrecord)
    rw [hstack, hstore]
    exact ⟨hapart, hdone⟩
  · have hquiet : ∀ event ∈ (step questions s input).1, ¬ event.Enters key :=
      fun event hmem hevent => hentry ⟨event, hmem, hevent⟩
    refine ⟨step_apart hapart hquiet hok.apart, fun heq => ?_⟩
    obtain ⟨ref, hget, hstatus⟩ := hdone heq
    obtain ⟨hrests, hobject⟩ := step_rests hplaced hheld ⟨hget, hapart, hunlisted⟩ hquiet hok.apart
    exact ⟨ref, hrests.mapped, hobject ▸ hstatus⟩

theorem Followed.step {log : List (Input × List Event)}
    (h : Followed questions key (eventsOf log) s) (hok : EndsFirst questions key log s input) :
    Followed questions key (eventsOf (log ++ [(input, (WorkRuntime.step questions s input).1)]))
      (WorkRuntime.step questions s input).2 := by
  refine ⟨step_placed h.placed input, step_held h.held input,
    step_unlisted h.placed h.unlisted hok.apart, ?_⟩
  rw [eventsOf_append_singleton]
  cases h.course with
  | running hno hworks => exact Followed.goesOn h.placed h.held h.unlisted hno hworks hok
  | @ended pre post path callId heq hpre hpost hdispatch hapart hdone =>
      have hmem : .ended path key callId ∈ eventsOf log :=
        heq ▸ List.mem_append_right _ List.mem_cons_self
      obtain ⟨hapart', hdone'⟩ :=
        Followed.stays h.placed h.held h.unlisted hapart hdone hmem hok
      have hevents : eventsOf log ++ (WorkRuntime.step questions s input).1 = pre ++
          .ended path key callId :: (post ++ (WorkRuntime.step questions s input).1) := by
        rw [heq, List.append_assoc]
        rfl
      refine .ended hevents hpre ?_ ?_ hapart' hdone'
      · exact List.forall_mem_append.mpr ⟨hpost, no_end_of_apart h.held hapart⟩
      · exact List.forall_mem_append.mpr ⟨hdispatch, no_dispatch_of_apart hapart⟩

end

/-- **A call that has ended is not dispatched again** in a run that looks it up
only where it has ended in its first invocation. -/
theorem ended_not_dispatched (questions : Questions) (plan : WorkPlan)
    (records : Dict String NodeRecord) (key : String) (s₀ s : State)
    (hstart : StartsWith plan records s₀) (log : List (Input × List Event))
    (hrun : Run (step questions) (EndsFirst questions key) s₀ log s) :
    ∀ pre post path callId, eventsOf log = pre ++ .ended path key callId :: post →
      ∀ event ∈ post, ¬ event.DispatchesFor key := by
  have h : Followed questions key (eventsOf log) s :=
    hrun.invariant (P := fun log s => Followed questions key (eventsOf log) s) (.start hstart)
      fun _ _ _ _ hok h => h.step hok
  intro pre post path callId heq
  cases h.course with
  | running hno _ =>
      have hmem : .ended path key callId ∈ eventsOf log :=
        heq ▸ List.mem_append_right _ List.mem_cons_self
      exact absurd rfl (hno _ hmem)
  | ended heq' hpre hpost hdispatch _ _ =>
      rw [heq'] at heq
      rwa [← post_of_split (Event.EndsFor key) heq rfl hpre hpost]

/-! ### Two runs of a call -/

/-- `EndsFirst`, computed. -/
def endsFirst (questions : Questions) (key : String) (log : List (Input × List Event)) (s : State)
    (_input : Input) : Bool :=
  (match s.control with
  | .enter d =>
      (nodeKey questions d.node s.executor).1 ≠ key ||
        ((eventsOf log).all fun event => match event with
          | .ended _ baseKey callId => baseKey ≠ key || (callId = key &&
              (s.store.record? key).all fun record =>
                record.signature = some (nodeSignature d.node))
          | _ => true)
        && s.stack.all fun frame => frame.baseKey ≠ key
  | _ => true)
  && match s.stack with
    | frame :: _ => repeatKey frame.baseKey (frame.invocation + 1) ≠ key
    | [] => true

theorem endsFirst_spec {questions : Questions} {key : String} {log : List (Input × List Event)}
    {s : State} {input : Input} (h : endsFirst questions key log s input = true) :
    EndsFirst questions key log s input := by
  obtain ⟨hentry, hunclaimed⟩ := (Bool.and_eq_true _ _).mp h
  have hlooked : ∀ d, s.control = .enter d → (nodeKey questions d.node s.executor).1 = key →
      (∀ path callId, .ended path key callId ∈ eventsOf log → callId = key ∧
        ∀ record, s.store.record? key = some record →
          record.signature = some (nodeSignature d.node)) ∧
      ∀ frame ∈ s.stack, frame.baseKey ≠ key := by
    intro d hd hkey
    rw [hd] at hentry
    simp only [hkey, ne_eq, not_true_eq_false, decide_false, Bool.false_or, Bool.and_eq_true,
      List.all_eq_true, decide_eq_true_eq] at hentry
    refine ⟨fun path callId hmem => ?_, hentry.2⟩
    have hended := hentry.1 _ hmem
    simp only [not_true_eq_false, decide_false, Bool.false_or, Bool.and_eq_true, decide_eq_true_eq,
      Option.all_eq_true] at hended
    exact hended
  exact
    { first := fun d hd hkey path callId hmem => ((hlooked d hd hkey).1 path callId hmem).1
      alike := fun d hd hkey path callId hmem => ((hlooked d hd hkey).1 path callId hmem).2
      nested := fun d hd hkey => (hlooked d hd hkey).2
      apart := fun frame rest hs => by
        rw [hs] at hunclaimed
        simpa using hunclaimed }

/-- A call may also be repeated. -/
def retrying : Questions :=
  ⟨fun _ _ => ["next_step", "repeat", "call_agent"], fun _ => [], fun _ => ""⟩

/-- Wood is mined, and then sand. -/
def mineTwice : WorkPlan :=
  ⟨1800, .sequence ⟨some "both", none, none, []⟩ [mineCall "oak_log",
    .call ⟨some "sand", none, none, []⟩ "mine_block" (.obj [("block", .str "sand")])], none⟩

def freshExecutor : State := ⟨.ofRecords [], ⟨mineTwice, false, 1800, [], [], []⟩, [], .idle⟩

/-- An invocation of a call, up to the choice on its result. -/
def invocation (choice : String) : List Reply :=
  [.proceed, .state (.ok (.obj [])), .result (.ok []), .state (.ok (.obj [])), .choice (.ok choice)]

/-- A run that mines the wood with these choices, and then asks the Agent; and
the next one. -/
def minedBefore (choices : List String) : List Input :=
  atOnce ([.run, .proceed, .proceed, .proceed] ++ choices.flatMap invocation
    ++ [.proceed, .proceed, .proceed] ++ invocation "call_agent" ++ [.proceed, .proceed]
    ++ [.run, .proceed, .proceed, .proceed, .proceed, .state (.ok (.obj []))])

instance decidableEndsFor (key : String) (event : Event) : Decidable (event.EndsFor key) :=
  match event with
  | .ended _ baseKey _ => inferInstanceAs (Decidable (baseKey = key))
  | .entered .. | .repeated .. | .dispatched .. | .chose .. | .interrupted _ | .handled _
  | .finished _ | .raised => isFalse id

theorem exists_ended {key : String} {events : List Event}
    (h : (events.any fun event => event.EndsFor key) = true) :
    ∃ pre post path callId, events = pre ++ .ended path key callId :: post := by
  obtain ⟨event, hmem, hends⟩ := List.any_eq_true.mp h
  obtain ⟨pre, post, rfl⟩ := List.append_of_mem hmem
  cases event with
  | ended path baseKey callId =>
      obtain rfl : baseKey = key := of_decide_eq_true hends
      exact ⟨pre, post, path, callId, rfl⟩
  | _ => exact (of_decide_eq_true hends).elim

theorem ended_not_dispatched_mine : ∃ pre post path callId,
    eventsOf (exec (step retrying) freshExecutor (minedBefore ["next_step"])).1 =
      pre ++ .ended path "mine" callId :: post ∧
    ∀ event ∈ post, ¬ event.DispatchesFor "mine" := by
  have hrun := Run.of_passes .start (fun _ _ _ => endsFirst_spec)
    (by decide +kernel : passes (step retrying) (endsFirst retrying "mine") [] freshExecutor
      (minedBefore ["next_step"]) = true)
  obtain ⟨pre, post, path, callId, heq⟩ := exists_ended
    (by decide +kernel : ((eventsOf (exec (step retrying) freshExecutor
      (minedBefore ["next_step"])).1).any fun event => event.EndsFor "mine") = true)
  exact ⟨pre, post, path, callId, heq, ended_not_dispatched retrying mineTwice [] "mine"
    freshExecutor _ ⟨rfl, rfl, rfl, rfl⟩ _ hrun pre post path callId heq⟩

theorem exists_dispatch_after {key : String} {events : List Event}
    (h : ((events.dropWhile fun event => ¬ event.EndsFor key).tail.any
      fun event => event.DispatchesFor key) = true) :
    ∃ pre post path callId, events = pre ++ .ended path key callId :: post ∧
      ∃ event ∈ post, event.DispatchesFor key := by
  cases hdrop : events.dropWhile fun event => ¬ event.EndsFor key with
  | nil =>
      rw [hdrop] at h
      cases h
  | cons event post =>
      have hends : event.EndsFor key := by
        have hhead := List.head?_dropWhile_not (fun event => ¬ event.EndsFor key) events
        rw [hdrop] at hhead
        simpa using hhead
      cases event with
      | ended path baseKey callId =>
          obtain rfl : baseKey = key := hends
          refine ⟨_, post, path, callId,
            (hdrop ▸ List.takeWhile_append_dropWhile (l := events)).symm, ?_⟩
          rw [hdrop] at h
          simpa using h
      | _ => exact hends.elim

/-- The wood is mined in a repeat; the next run mines it again. -/
theorem repeated_call_dispatched_again :
    StartsWith mineTwice [] freshExecutor ∧ ∃ pre post path callId,
      eventsOf (exec (step retrying) freshExecutor (minedBefore ["repeat", "next_step"])).1 =
        pre ++ .ended path "mine" callId :: post ∧
      ∃ event ∈ post, event.DispatchesFor "mine" :=
  ⟨⟨rfl, rfl, rfl, rfl⟩, exists_dispatch_after (by decide +kernel)⟩

end WorkRuntime

end MineBot
