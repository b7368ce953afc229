import MineBot.WorkSteps

/-!
# Places of a plan

A frame of the executor stands at a place of its plan: the path leads to its
node, by the children of the composite nodes, the attempts of the interrupt
handler and the equip calls. `Place` says which these are, without a run.

Here, for every run:

- `Run.placed` - each frame stands at a place, under a key of its node, and
  hangs below the frame that waits for it;
- `Run.held` - the store maps its keys to different objects, and a frame's
  object to no other key than the frame's.
-/

namespace MineBot

namespace WorkRuntime

/-! ## Places -/

/-- The key of an invocation. -/
def callKey (baseKey : String) : Nat → String
  | 0 => baseKey
  | n + 1 => repeatKey baseKey (n + 1)

/-- A node the executor may meet on a path, and the item it has there. -/
inductive Place (questions : Questions) (plan : WorkPlan) : Path → WorkNode → Json → Prop where
  | root : Place questions plan [] plan.work .null
  | step {path : Path} {head : NodeHead} {steps : List WorkNode} {item : Json} {i : Nat}
      {child : WorkNode} :
      Place questions plan path (.sequence head steps) item → steps[i]? = some child →
      Place questions plan (.step i :: path) child item
  | item {path : Path} {head : NodeHead} {items : List Json} {body : WorkNode} {outer value : Json}
      {i : Nat} :
      Place questions plan path (.batch head false items body) outer → items[i]? = some value →
      Place questions plan (.item i :: path) (body.forItem i) value
  | adaptive {path : Path} {head : NodeHead} {items : List Json} {body : WorkNode}
      {outer value : Json} {i : Nat} :
      Place questions plan path (.batch head true items body) outer → value ∈ items →
      Place questions plan (.item i :: path) (body.forItem i) value
  | option {path : Path} {head : NodeHead} {fromRuntime : Bool}
      {options : List (String × WorkNode)} {item : Json} {id id' : String} {work : WorkNode} :
      Place questions plan path (.choice head fromRuntime options) item →
      options.find? (·.1 = id) = some (id', work) →
      Place questions plan (.option id :: path) work item
  | interrupt {path : Path} {node handler : WorkNode} {item : Json} {baseKey : String}
      {n attempt : Nat} :
      Place questions plan path node item → node.isCall → BaseKey questions node baseKey →
      plan.handler = some handler →
      Place questions plan (.interrupt (callKey baseKey n) attempt :: path)
        (handlerCall handler (callKey baseKey n) attempt) item
  | equipment {path : Path} {node : WorkNode} {item : Json} {baseKey tool : String} {n : Nat}
      {timeoutS : Rat} :
      Place questions plan path node item → node.isCall → BaseKey questions node baseKey →
      Place questions plan (.equipment (callKey baseKey n) :: path)
        (equipCall (callKey baseKey n) tool timeoutS) item

/-- A path leads to one node, equip calls apart. -/
theorem Place.same {questions : Questions} {plan : WorkPlan} {path : Path} {node node' : WorkNode}
    {item item' : Json} (h : Place questions plan path node item)
    (h' : Place questions plan path node' item') :
    node = node' ∨ node.isCall ∧ node'.isCall := by
  induction h generalizing node' item' with
  | root =>
      cases h'
      exact .inl rfl
  | step _ hchild ih =>
      cases h' with
      | step hplace' hchild' =>
          rcases ih hplace' with heq | ⟨hcall, -⟩
          · cases heq
            exact .inl (Option.some.inj (hchild.symm.trans hchild'))
          · cases hcall
  | item _ _ ih =>
      cases h' with
      | item hplace' _ =>
          rcases ih hplace' with heq | ⟨hcall, -⟩
          · cases heq
            exact .inl rfl
          · cases hcall
      | adaptive hplace' _ =>
          rcases ih hplace' with heq | ⟨hcall, -⟩
          · cases heq
          · cases hcall
  | adaptive _ _ ih =>
      cases h' with
      | item hplace' _ =>
          rcases ih hplace' with heq | ⟨hcall, -⟩
          · cases heq
          · cases hcall
      | adaptive hplace' _ =>
          rcases ih hplace' with heq | ⟨hcall, -⟩
          · cases heq
            exact .inl rfl
          · cases hcall
  | option _ hfind ih =>
      cases h' with
      | option hplace' hfind' =>
          rcases ih hplace' with heq | ⟨hcall, -⟩
          · cases heq
            cases hfind.symm.trans hfind'
            exact .inl rfl
          · cases hcall
  | interrupt _ _ _ hhandler _ =>
      generalize hpath : PathStep.interrupt _ _ :: _ = path at h'
      cases h' with
      | interrupt _ _ _ hhandler' =>
          simp only [List.cons.injEq, PathStep.interrupt.injEq] at hpath
          obtain ⟨⟨hkey, hattempt⟩, -⟩ := hpath
          rw [hkey, hattempt, Option.some.inj (hhandler.symm.trans hhandler')]
          exact .inl rfl
      | _ => cases hpath
  | equipment _ _ _ _ =>
      generalize hpath : PathStep.equipment _ :: _ = path at h'
      cases h' with
      | equipment _ _ _ => exact .inr ⟨rfl, rfl⟩
      | _ => cases hpath

/-- The step to the child a frame waits for. -/
def Frame.awaits (frame : Frame) : Option PathStep :=
  match frame.phase, frame.node with
  | .steps i, _ => some (.step i)
  | .items i, _ => some (.item i)
  | .adaptive remaining, .batch _ _ items _ => some (.item (items.length - remaining.length - 1))
  | .option id, _ => some (.option id)
  | .handler attempt, _ => some (.interrupt frame.key attempt)
  | .equipment, _ => some (.equipment frame.key)
  | _, _ => none

/-- The path is one step below the top of the stack. -/
def Hangs (path : Path) : List Frame → Prop
  | [] => path = []
  | below :: _ => ∃ step, below.awaits = some step ∧ path = step :: below.path

section

variable {questions : Questions} {plan : WorkPlan} {frame : Frame} {rest : List Frame}
variable {phase : Phase} {last : PathStep} {node : WorkNode} {item : Json}

/-- In this phase the frame offers items of its batch only. -/
def Offered (frame : Frame) (phase : Phase) : Prop :=
  ∀ remaining, phase = .adaptive remaining → ∀ head items body,
    frame.node = .batch head true items body → remaining ⊆ items

/-- The frame stands at a place, under a key of its node. -/
structure Frame.Placed (questions : Questions) (plan : WorkPlan) (frame : Frame) : Prop where
  place : Place questions plan frame.path frame.node frame.item
  baseKey : BaseKey questions frame.node frame.baseKey
  key : frame.key = callKey frame.baseKey frame.invocation
  calls : frame.phase.OfCall → frame.node.isCall
  offers : Offered frame frame.phase

theorem Frame.Placed.isCall (h : frame.Placed questions plan) (hc : frame.Calls) :
    frame.node.isCall :=
  hc.elim id h.calls

/-- Only the phase and the object of the frame change. -/
theorem Frame.Placed.withPhase (h : frame.Placed questions plan)
    (hc : phase.OfCall → frame.Calls) (ho : Offered frame phase) :
    ({ frame with phase } : Frame).Placed questions plan :=
  ⟨h.place, h.baseKey, h.key, fun hp => h.isCall (hc hp), ho⟩

theorem Offers.offered (h : Offers frame phase) (hf : frame.Placed questions plan) :
    Offered frame phase := by
  rintro remaining rfl head items body hn
  rcases h with h | ⟨head', items', body', hn', rfl⟩
  · exact hf.offers remaining h head items body hn
  · cases hn'.symm.trans hn
    exact List.Subset.refl _

theorem Child.offered (h : Child plan frame phase last node item)
    (hf : frame.Placed questions plan) : Offered frame phase := by
  rintro remaining rfl head items body hn
  cases h with
  | adaptive hn' hp hvalue hrest =>
      exact List.Subset.trans hrest (hf.offers _ hp head items body hn)

theorem Child.place (h : Child plan frame phase last node item)
    (hf : frame.Placed questions plan) :
    Place questions plan (last :: frame.path) node item := by
  have hp := hf.place
  cases h with
  | step hn hi =>
      rw [hn] at hp
      exact .step hp hi
  | item hn hi =>
      rw [hn] at hp
      exact .item hp hi
  | adaptive hn hphase hvalue _ =>
      have hmem := hf.offers _ hphase _ _ _ hn hvalue
      rw [hn] at hp
      exact .adaptive hp hmem
  | option hn hi =>
      rw [hn] at hp
      exact .option hp hi
  | handler hc hh =>
      rw [hf.key]
      exact .interrupt hp (hf.isCall hc) hf.baseKey hh
  | equipment hc =>
      rw [hf.key]
      exact .equipment hp (hf.isCall hc) hf.baseKey

theorem Child.awaits (h : Child plan frame phase last node item) :
    ({ frame with phase } : Frame).awaits = some last := by
  cases h with
  | adaptive hn => simp [Frame.awaits, hn]
  | _ => rfl

theorem Child.calls (h : Child plan frame phase last node item) (hp : phase.OfCall) :
    frame.Calls := by
  cases h with
  | handler hc _ => exact hc
  | equipment hc => exact hc
  | _ => exact hp.elim

/-! ## Stacks -/

/-- Each frame is placed, and hangs below the next. -/
def Stacked (questions : Questions) (plan : WorkPlan) : List Frame → Prop
  | [] => True
  | frame :: rest =>
      frame.Placed questions plan ∧ Hangs frame.path rest ∧ Stacked questions plan rest

theorem Stacked.of_append {upper : List Frame} (h : Stacked questions plan (upper ++ rest)) :
    Stacked questions plan rest := by
  induction upper with
  | nil => exact h
  | cons _ _ ih => exact ih h.2.2

theorem Stacked.placed (h : Stacked questions plan rest) (hf : frame ∈ rest) :
    frame.Placed questions plan := by
  induction rest with
  | nil => cases hf
  | cons f rest ih =>
      rcases List.mem_cons.mp hf with rfl | hf
      · exact h.1
      · exact ih h.2.2 hf

/-- The frames below have paths that the path prolongs. -/
theorem Hangs.suffix {path : Path} (h : Hangs path rest) (hs : Stacked questions plan rest)
    (hf : frame ∈ rest) : frame.path <:+ path ∧ frame.path ≠ path := by
  induction rest generalizing path with
  | nil => cases hf
  | cons below rest ih =>
      obtain ⟨step, -, rfl⟩ := h
      have hbelow : frame.path <:+ below.path := by
        rcases List.mem_cons.mp hf with rfl | hf
        · exact List.suffix_refl _
        · exact (ih hs.2.1 hs.2.2 hf).1
      refine ⟨hbelow.trans (List.suffix_cons _ _), fun he => ?_⟩
      have := hbelow.length_le
      rw [he] at this
      exact absurd this (by simp)

/-- Where the executor stands in its plan. -/
structure Placed (questions : Questions) (s : State) : Prop where
  idle : s.control = .idle → s.stack = []
  stack : Stacked questions s.executor.plan s.stack
  dispatch : ∀ d, s.control = .enter d →
    Place questions s.executor.plan d.path d.node d.item ∧ Hangs d.path s.stack

/-- A top frame that changes its phase only. -/
theorem Stacked.withPhase (h : Stacked questions plan (frame :: rest))
    (hc : phase.OfCall → frame.Calls) (ho : Offered frame phase) :
    Stacked questions plan ({ frame with phase } :: rest) :=
  ⟨h.1.withPhase hc ho, h.2⟩

theorem Move.placed {s s' : State} {events : List Event} (h : Placed questions s)
    (hs : s.stack = frame :: rest) (m : Move s frame rest events s') : Placed questions s' := by
  have hst := h.stack
  rw [hs] at hst
  cases m with
  | still => exact h
  | stray hc => exact ⟨nofun, by simpa [hs] using hst, nofun⟩
  | raises exc _ _ _ => exact ⟨nofun, hst, nofun⟩
  | awaits _ _ hc _ _ ho => exact ⟨nofun, hst.withPhase hc (ho.offered hst.1), nofun⟩
  | resumes _ _ => exact ⟨nofun, hst.withPhase False.elim nofun, nofun⟩
  | dispatches hn _ _ _ =>
      exact ⟨nofun, hst.withPhase (fun _ => .inl (by rw [hn]; rfl)) nofun, nofun⟩
  | enters hchild _ _ _ _ _ =>
      refine ⟨nofun, hst.withPhase hchild.calls (hchild.offered hst.1), fun d hd => ?_⟩
      obtain rfl := Control.enter.inj hd
      exact ⟨hchild.place hst.1, _, hchild.awaits, rfl⟩
  | chooses hchild _ _ _ _ =>
      refine ⟨nofun, hst.withPhase hchild.calls nofun, fun d hd => ?_⟩
      obtain rfl := Control.enter.inj hd
      exact ⟨hchild.place hst.1, _, hchild.awaits, rfl⟩
  | leaves _ _ _ _ _ => exact ⟨nofun, hst.2.2, nofun⟩
  | completes _ _ _ => exact ⟨nofun, hst.2.2, nofun⟩
  | ends _ _ _ => exact ⟨nofun, hst.2.2, nofun⟩
  | repeats _ _ _ _ _ =>
      exact ⟨nofun, ⟨⟨hst.1.place, hst.1.baseKey, rfl, False.elim, nofun⟩, hst.2⟩, nofun⟩
  | handled hp _ _ _ =>
      exact ⟨nofun, hst.withPhase (fun _ => .inr (by rw [hp]; trivial)) nofun, nofun⟩
  | advances ha _ _ _ =>
      refine ⟨nofun, hst.withPhase (fun hp => ?_) ?_, nofun⟩
      · generalize frame.phase = old at ha
        cases ha <;> exact hp.elim
      · generalize frame.phase = old at ha
        cases ha <;> nofun

/-- A frame for the node that is entered. -/
theorem Placed.push {s : State} {d : Dispatch} {key : String} {executor : Executor} {ref : Nat}
    {control : Control} (h : Placed questions s) (he : Entry questions s d key executor)
    (ho : Opening phase control) :
    Stacked questions executor.plan
      (⟨d.node, d.path, d.item, key, key, ref, 0, phase⟩ :: s.stack) := by
  obtain ⟨hplace, hhangs⟩ := h.dispatch d he.control
  rw [he.plan]
  exact ⟨⟨hplace, he.key, rfl, fun hp => by cases ho <;> exact hp.elim, by cases ho <;> nofun⟩,
    hhangs, h.stack⟩

theorem step_placed {s : State} (h : Placed questions s) (input : Input) :
    Placed questions (step questions s input).2 := by
  have e : Effect questions s input _ _ := step_effect s input
  generalize (step questions s input).1 = events at e
  generalize (step questions s input).2 = s' at e
  cases e with
  | still => exact h
  | construct hc _ _ =>
      have hs := h.idle hc
      exact ⟨fun _ => hs, by simp [hs, Stacked], fun d hd => by simp [hc] at hd⟩
  | start _ _ =>
      refine ⟨nofun, trivial, fun d hd => ?_⟩
      obtain rfl := Control.enter.inj hd
      exact ⟨.root, rfl⟩
  | found he _ _ _ => exact ⟨nofun, by rw [he.plan]; exact h.stack, nofun⟩
  | refuses he _ _ _ _ _ => exact ⟨nofun, by rw [he.plan]; exact h.stack, nofun⟩
  | opens he _ _ _ _ _ ho =>
      exact ⟨by cases ho <;> nofun, h.push he ho, by cases ho <;> nofun⟩
  | makes he _ _ _ ho =>
      exact ⟨by cases ho <;> nofun, h.push he ho, by cases ho <;> nofun⟩
  | moves hs m => exact m.placed h hs
  | finishes hs hc => exact ⟨fun _ => hs, h.stack, nofun⟩
  | fails hs hc _ => exact ⟨fun _ => hs, h.stack, nofun⟩
  | unwinds hs hc =>
      have hst := h.stack
      rw [hs] at hst
      exact ⟨fun hi => by simp [hc] at hi, hst.2.2, fun d hd => by simp [hc] at hd⟩
  | @cuts upper rest frame store hs _ _ =>
      have hst := h.stack
      rw [hs] at hst
      exact ⟨nofun, hst.of_append.2.2, nofun⟩

/-- In each run from an idle start. -/
theorem Run.placed {ok : List (Input × List Event) → State → Input → Prop} {s₀ s : State}
    {log : List (Input × List Event)} (hrun : Run (step questions) ok s₀ log s)
    (hidle : s₀.control = .idle) (hempty : s₀.stack = []) : Placed questions s :=
  hrun.invariant (P := fun _ s => Placed questions s)
    ⟨fun _ => hempty, by simp [hempty, Stacked], fun d hd => by simp [hidle] at hd⟩
    fun _ _ input _ _ h => step_placed h input

/-! ## The plan and its calls -/

theorem Move.keepsPlan {s s' : State} {events : List Event} (m : Move s frame rest events s') :
    s'.executor.plan = s.executor.plan := by
  cases m <;> rfl

/-- Only a new executor changes the plan. -/
theorem step_plan (questions : Questions) (s : State) (input : Input) :
    (step questions s input).2.executor.plan = s.executor.plan ∨
      ∃ judged, input.reply = .construct (step questions s input).2.executor.plan judged := by
  have e : Effect questions s input _ _ := step_effect s input
  generalize (step questions s input).1 = events at e
  generalize (step questions s input).2 = s' at e
  cases e with
  | construct _ hr hp => exact .inr ⟨_, by rw [hp]; exact hr⟩
  | found he _ _ _ => exact .inl he.plan
  | refuses he _ _ _ _ _ => exact .inl he.plan
  | opens he _ _ _ _ _ _ => exact .inl he.plan
  | makes he _ _ _ _ => exact .inl he.plan
  | moves _ m => exact .inl m.keepsPlan
  | _ => exact .inl rfl

/-- A call that is dispatched. -/
def Event.Dispatches : Event → Prop
  | .dispatched .. => True
  | _ => False

theorem MayInterrupt.quiet {events : List Event} (h : MayInterrupt frame events) :
    ∀ event ∈ events, ¬ event.Dispatches := by
  rcases h with rfl | ⟨attempt, rfl⟩
  · nofun
  · intro event hmem
    obtain rfl := List.mem_singleton.mp hmem
    exact id

end

/-! ## The store and the frames -/

/-- Different keys have different objects. -/
structure Store.Sound (store : Store) : Prop where
  range : ∀ key ref, store.records.get? key = some ref → ref < store.objects.length
  inj : ∀ key key' ref, store.records.get? key = some ref → store.records.get? key' = some ref →
    key = key'

/-- The objects of the frames are no other key's. -/
structure Held (s : State) : Prop where
  sound : s.store.Sound
  range : ∀ frame ∈ s.stack, frame.ref < s.store.objects.length
  own : ∀ frame ∈ s.stack, ∀ key, s.store.records.get? key = some frame.ref → key = frame.key

theorem Store.sound_ofRecords (records : Dict String NodeRecord) :
    (Store.ofRecords records).Sound := by
  have hget : ∀ key ref, (Store.ofRecords records).records.get? key = some ref →
      (records.map Prod.fst)[ref]? = some key := fun key ref h =>
    List.mk_mem_zipIdx_iff_getElem?.mp (Dict.mem_of_get? h)
  refine ⟨fun key ref h => ?_, fun key key' ref h h' => ?_⟩
  · have := List.getElem?_eq_some_iff.mp (hget key ref h)
    simpa [Store.ofRecords] using this.1
  · exact Option.some.inj ((hget key ref h).symm.trans (hget key' ref h'))

theorem Store.Sound.put {store : Store} (h : store.Sound) (key : String) (record : NodeRecord) :
    (store.put key record).Sound := by
  refine ⟨fun k ref hk => ?_, fun k k' ref hk hk' => ?_⟩
  · rw [records_put, Dict.get?_set] at hk
    rw [length_put]
    split at hk
    · have := Option.some.inj hk
      omega
    · have := h.range k ref hk
      omega
  · rw [records_put, Dict.get?_set] at hk hk'
    split at hk <;> split at hk'
    · next hk₁ hk₂ => rw [hk₁, hk₂]
    · next h₁ h₂ =>
        have := h.range _ _ hk'
        have := Option.some.inj hk
        omega
    · next h₁ h₂ =>
        have := h.range _ _ hk
        have := Option.some.inj hk'
        omega
    · exact h.inj k k' ref hk hk'

theorem Store.Sound.pop {store : Store} (h : store.Sound) (keys : List String) :
    ({ store with records := keys.foldl Dict.pop store.records } : Store).Sound := by
  have hget : ∀ key ref, (keys.foldl Dict.pop store.records).get? key = some ref →
      store.records.get? key = some ref := by
    intro key ref hk
    rw [Dict.get?_foldl_pop] at hk
    split at hk
    · cases hk
    · exact hk
  exact ⟨fun key ref hk => h.range key ref (hget key ref hk), fun key key' ref hk hk' =>
    h.inj key key' ref (hget key ref hk) (hget key' ref hk')⟩

theorem Amends.sound {key : String} {ref : Nat} {old new : Store} (h : Amends key ref old new)
    (hs : old.Sound) : new.Sound := by
  refine ⟨fun key ref hk => ?_, fun key key' ref hk hk' => ?_⟩
  · rw [h.records] at hk
    rw [h.length]
    exact hs.range key ref hk
  · rw [h.records] at hk hk'
    exact hs.inj key key' ref hk hk'

/-- Keys are mapped to what they were mapped to, or to a new object. -/
structure Extends (old new : Store) : Prop where
  length : old.objects.length ≤ new.objects.length
  records : ∀ key ref, new.records.get? key = some ref →
    old.records.get? key = some ref ∨ ref = old.objects.length
  sound : old.Sound → new.Sound

section

variable {old new : Store} {key : String} {ref : Nat} {frame : Frame} {rest : List Frame}
variable {s s' : State} {events : List Event}

theorem Extends.refl (store : Store) : Extends store store where
  length := le_rfl
  records _ _ h := .inl h
  sound := id

theorem Amends.extends (h : Amends key ref old new) : Extends old new where
  length := h.length.ge
  records _ _ hk := .inl (h.records ▸ hk)
  sound := h.sound

theorem Extends.amend {store : Store} (h : Extends old store) (ha : Amends key ref store new) :
    Extends old new where
  length := h.length.trans ha.length.ge
  records k i hk := h.records k i (ha.records ▸ hk)
  sound hs := ha.sound (h.sound hs)

/-- New objects come under their own keys. -/
theorem Extends.put (store : Store) (key : String) (record : NodeRecord) :
    Extends store (store.put key record) where
  length := by simp
  records k i hk := by
    rw [Store.records_put, Dict.get?_set] at hk
    split at hk
    · exact .inr (Option.some.inj hk).symm
    · exact .inl hk
  sound hs := hs.put key record

/-- Keys may be dropped on the way. -/
theorem Extends.pop_put {store : Store} (h : Amends key ref old store) (keys : List String)
    (name : String) (record : NodeRecord) :
    Extends old (({ store with records := keys.foldl Dict.pop store.records } : Store).put
      name record) where
  length := by
    rw [Store.length_put, h.length]
    exact Nat.le_succ _
  records k i hk := by
    rw [Store.records_put, Dict.get?_set] at hk
    split at hk
    · exact .inr ((Option.some.inj hk).symm.trans h.length)
    · rw [Dict.get?_foldl_pop] at hk
      split at hk
      · cases hk
      · exact .inl (h.records ▸ hk)
  sound hs := ((h.sound hs).pop keys).put name record

theorem Move.extends (m : Move s frame rest events s') : Extends s.store s'.store := by
  cases m with
  | still => exact .refl _
  | stray _ => exact .refl _
  | raises _ _ hk _ => exact hk.extends
  | awaits hk _ _ _ _ _ => exact hk.extends
  | resumes hk _ => exact hk.extends
  | dispatches _ _ hk _ => exact hk.extends
  | enters _ _ _ hk _ _ => exact hk.extends
  | chooses _ ha _ _ _ => exact ha.extends
  | leaves _ _ hk _ _ => exact hk.extends
  | completes _ _ hk => exact hk.extends
  | ends _ hk _ => exact hk.extends
  | repeats _ hk _ _ _ => exact .pop_put hk.toAmends _ _ _
  | handled _ _ hk _ => exact hk.extends
  | advances _ _ hk _ => exact hk.extends

/-! ## The frames over the store -/

/-- The top frame after a step, if it is still there: it has the key and the
object it had, or those of a new invocation. -/
structure Continues (old new : Store) (frame frame' : Frame) : Prop where
  path : frame'.path = frame.path
  node : frame'.node = frame.node
  item : frame'.item = frame.item
  holds : frame'.key = frame.key ∧ frame'.ref = frame.ref ∨
    frame'.ref = old.objects.length ∧ new.records.get? frame'.key = some frame'.ref

theorem Continues.same {phase : Phase} : Continues old new frame { frame with phase } :=
  ⟨rfl, rfl, rfl, .inl ⟨rfl, rfl⟩⟩

theorem Move.top (hs : s.stack = frame :: rest) (m : Move s frame rest events s') :
    s'.stack = rest ∨
      ∃ frame', s'.stack = frame' :: rest ∧ Continues s.store s'.store frame frame' := by
  cases m with
  | still => exact .inr ⟨frame, hs, .same⟩
  | stray _ => exact .inr ⟨frame, hs, .same⟩
  | raises _ _ _ _ => exact .inr ⟨frame, rfl, .same⟩
  | leaves _ _ _ _ _ => exact .inl rfl
  | completes _ _ _ => exact .inl rfl
  | ends _ _ _ => exact .inl rfl
  | repeats _ hk _ _ _ =>
      refine .inr ⟨_, rfl, rfl, rfl, rfl, .inr ⟨hk.length, ?_⟩⟩
      rw [Store.records_put, Dict.get?_set_self]
  | _ => exact .inr ⟨_, rfl, .same⟩

/-- The frame's object is there, and no other key's. -/
structure Frame.Holds (store : Store) (frame : Frame) : Prop where
  range : frame.ref < store.objects.length
  own : ∀ key, store.records.get? key = some frame.ref → key = frame.key

theorem Frame.Holds.extends (h : frame.Holds old) (hx : Extends old new) : frame.Holds new where
  range := h.range.trans_le hx.length
  own key hk := by
    rcases hx.records key _ hk with hk | hk
    · exact h.own key hk
    · exact absurd hk h.range.ne

theorem Frame.holds_of_get? (hs : old.Sound) (h : old.records.get? frame.key = some frame.ref) :
    frame.Holds old where
  range := hs.range _ _ h
  own _ hk := hs.inj _ _ _ hk h

theorem Continues.holds_of {frame' : Frame} (h : Continues old new frame frame')
    (hx : Extends old new) (hs : old.Sound) (hf : frame.Holds old) : frame'.Holds new := by
  rcases h.holds with ⟨hkey, href⟩ | ⟨-, hget⟩
  · obtain ⟨hrange, hown⟩ := hf.extends hx
    rw [← href] at hrange hown
    exact ⟨hrange, hkey ▸ hown⟩
  · exact Frame.holds_of_get? (hx.sound hs) hget

theorem Held.holds (h : Held s) (hf : frame ∈ s.stack) : frame.Holds s.store :=
  ⟨h.range frame hf, h.own frame hf⟩

theorem held_of (hs : s.store.Sound) (h : ∀ frame ∈ s.stack, frame.Holds s.store) : Held s :=
  ⟨hs, fun frame hf => (h frame hf).range, fun frame hf => (h frame hf).own⟩

theorem Held.extends (h : Held s) (hx : Extends s.store s'.store)
    (hsub : ∀ frame ∈ s'.stack, frame ∈ s.stack ∨ frame.Holds s'.store) : Held s' :=
  held_of (hx.sound h.sound) fun frame hf =>
    (hsub frame hf).elim (fun hf => (h.holds hf).extends hx) id

theorem Move.held (h : Held s) (hs : s.stack = frame :: rest) (m : Move s frame rest events s') :
    Held s' := by
  refine h.extends m.extends fun f hf => ?_
  rcases m.top hs with hstack | ⟨frame', hstack, hc⟩
  · rw [hstack] at hf
    exact .inl (hs ▸ List.mem_cons_of_mem _ hf)
  · rw [hstack] at hf
    rcases List.mem_cons.mp hf with rfl | hf
    · exact .inr (hc.holds_of m.extends h.sound (h.holds (hs ▸ List.mem_cons_self)))
    · exact .inl (hs ▸ List.mem_cons_of_mem _ hf)

theorem step_held {questions : Questions} (h : Held s) (input : Input) :
    Held (step questions s input).2 := by
  have e : Effect questions s input _ _ := step_effect s input
  generalize (step questions s input).1 = events at e
  generalize (step questions s input).2 = s' at e
  cases e with
  | still => exact h
  | construct _ _ _ => exact ⟨h.sound, h.range, h.own⟩
  | start _ _ => exact ⟨h.sound, nofun, nofun⟩
  | found _ _ _ _ => exact ⟨h.sound, h.range, h.own⟩
  | refuses _ _ _ _ _ _ => exact h.extends (.put _ _ _) fun _ hf => .inl hf
  | @opens d key _ ref _ phase _ _ hkey _ _ hk _ _ =>
      have ha := (hk ⟨d.node, d.path, d.item, key, key, ref, 0, phase⟩).toAmends
      refine h.extends ha.extends fun f hf => ?_
      rcases List.mem_cons.mp hf with rfl | hf
      · exact .inr (Frame.holds_of_get? (ha.sound h.sound) (ha.records ▸ hkey))
      · exact .inl hf
  | @makes d key _ _ phase _ _ _ hk _ _ =>
      have ha := (hk ⟨d.node, d.path, d.item, key, key, s.store.objects.length, 0, phase⟩).toAmends
      have hx := (Extends.put s.store _ _).amend ha
      refine h.extends hx fun f hf => ?_
      rcases List.mem_cons.mp hf with rfl | hf
      · refine .inr (Frame.holds_of_get? (hx.sound h.sound) ?_)
        rw [ha.records, Store.records_put, Dict.get?_set_self]
      · exact .inl hf
  | moves hs m => exact m.held h hs
  | finishes _ _ => exact ⟨h.sound, h.range, h.own⟩
  | fails _ _ _ => exact ⟨h.sound, h.range, h.own⟩
  | unwinds hs _ =>
      exact h.extends (.refl _) fun f hf => .inl (hs ▸ List.mem_cons_of_mem _ hf)
  | cuts hs hk _ =>
      refine h.extends hk.extends fun f hf => .inl ?_
      rw [hs]
      exact List.mem_append_right _ (List.mem_cons_of_mem _ hf)

/-- In each run from an idle start over a sound store. -/
theorem Run.held {questions : Questions} {ok : List (Input × List Event) → State → Input → Prop}
    {s₀ : State} {log : List (Input × List Event)} (hrun : Run (step questions) ok s₀ log s)
    (hsound : s₀.store.Sound) (hempty : s₀.stack = []) : Held s :=
  hrun.invariant (P := fun _ s => Held s) (held_of hsound (by simp [hempty]))
    fun _ _ input _ _ h => step_held h input

end

end WorkRuntime

end MineBot
