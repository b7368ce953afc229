import Mathlib
import MineBot.WorkPlaces

/-!
# Adaptive batches

An adaptive batch asks Decision for the next item, enters its body call for
it under the number of the pick, and goes on when the call is done. Which
items are left is known to the running batch alone; the records are kept by
number. A batch that is entered again starts with all its items, and takes
the calls it finds done for the items that are picked then.

`Faithful` is the condition under which that agrees with what was done before.
Under it `adaptive_batch_once` holds in every run: the items whose calls have
ended are, when the batch is done, the items of the batch, and no call is
dispatched for an item that has none left.
-/

namespace MineBot

namespace WorkRuntime

/-! ## What the calls of a batch have done -/

section

variable (path : Path)

/-- The item of a call dispatched for the pick with this number. -/
def Event.itemOf (k : Nat) : Event → Option Json
  | .dispatched place _ _ _ _ item => if place = .item k :: path then some item else none
  | _ => none

/-- The number of the pick whose call ends. -/
def Event.endOf : Event → Option Nat
  | .ended (.item k :: place) _ _ => if place = path then some k else none
  | _ => none

/-- The item the call of a pick was last dispatched for. -/
def lastItem (k : Nat) (events : List Event) : Option Json :=
  (events.filterMap (Event.itemOf path k)).getLast?

/-- The picks whose calls have ended with `next_step`, in that order, each
with the item its call was last dispatched for. -/
def handled (events : List Event) : List (Nat × Json) :=
  (List.range events.length).filterMap fun i =>
    (events[i]?.bind (Event.endOf path)).bind fun k =>
      (lastItem path k (events.take i)).map (k, ·)

def handledItems (events : List Event) : List Json := (handled path events).map Prod.snd

/-- Nothing is dispatched for a pick, nor does its call end. -/
def Event.Quiet (event : Event) : Prop :=
  (∀ k, event.itemOf path k = none) ∧ event.endOf path = none

variable {path} {events more : List Event} {event : Event} {k : Nat}

theorem lastItem_append_quiet (h : ∀ event ∈ more, event.Quiet path) :
    lastItem path k (events ++ more) = lastItem path k events := by
  rw [lastItem, List.filterMap_append, List.filterMap_eq_nil_iff.mpr fun e he => (h e he).1 k,
    List.append_nil]
  rfl

theorem lastItem_append_dispatched {baseKey callId tool : String} {values item : Json} :
    (fun j => lastItem path j
        (events ++ [.dispatched (.item k :: path) baseKey callId tool values item]))
      = Function.update (fun j => lastItem path j events) k (some item) := by
  funext j
  by_cases hj : j = k
  · subst hj
    simp [lastItem, Event.itemOf]
  · simp [lastItem, Event.itemOf, hj, Ne.symm hj]

theorem lastItem_ended {place : Path} {baseKey callId : String} :
    lastItem path k (events ++ [.ended place baseKey callId]) = lastItem path k events := by
  simp [lastItem, Event.itemOf]

/-- One more event is one more entry, at most. -/
theorem handled_append_singleton :
    handled path (events ++ [event]) = handled path events ++
      ((event.endOf path).bind fun k => (lastItem path k events).map (k, ·)).toList := by
  have hbefore : ∀ i ∈ List.range events.length,
      (((events ++ [event])[i]?.bind (Event.endOf path)).bind fun k =>
          (lastItem path k ((events ++ [event]).take i)).map (k, ·))
      = (events[i]?.bind (Event.endOf path)).bind fun k =>
          (lastItem path k (events.take i)).map (k, ·) := by
    intro i hi
    have hlt := List.mem_range.mp hi
    rw [List.getElem?_append_left hlt, List.take_append_of_le_length hlt.le]
  rw [handled, List.length_append, List.length_singleton, List.range_succ, List.filterMap_append,
    List.filterMap_congr hbefore]
  refine congrArg (handled path events ++ ·) ?_
  rw [List.filterMap_cons, List.filterMap_nil, List.getElem?_concat_length, List.take_left,
    Option.bind_some]
  cases (event.endOf path).bind fun k => (lastItem path k events).map (k, ·) <;> rfl

theorem handled_append_quiet (h : ∀ event ∈ more, event.Quiet path) :
    handled path (events ++ more) = handled path events := by
  induction more using List.reverseRecOn with
  | nil => rw [List.append_nil]
  | append_singleton more event ih =>
      rw [← List.append_assoc, handled_append_singleton,
        (h event (List.mem_append_right _ List.mem_cons_self)).2,
        ih fun e he => h e (List.mem_append_left _ he)]
      exact List.append_nil _

end

/-! ## The batch on top of the stack -/

namespace Phase

/-- The phases of an adaptive batch. -/
def OfBatch : Phase → Prop
  | .condition | .body | .adaptive _ => True
  | _ => False

/-- The items a batch goes on with. -/
def left (items : List Json) : Phase → List Json
  | .adaptive remaining => remaining
  | _ => items

end Phase

/-- The number of the pick that has left so many items. -/
def pickNumber (items remaining : List Json) : Nat := items.length - remaining.length - 1

theorem popAt_perm {offered remaining : List Json} {index : Int} {value : Json}
    (h : popAt offered index = some (value, remaining)) : offered.Perm (value :: remaining) := by
  unfold popAt at h
  dsimp only at h
  generalize (if index < 0 then index + offered.length else index) = i at h
  split at h
  · cases h
  · obtain ⟨value', hget, heq⟩ := Option.map_eq_some_iff.mp h
    cases heq
    obtain ⟨hlt, rfl⟩ := List.getElem?_eq_some_iff.mp hget
    exact (List.getElem_cons_eraseIdx_perm hlt).symm

/-- What a step can do to an adaptive batch on top of the stack. -/
inductive Turn (items : List Json) (body : WorkNode) (s : State) (frame : Frame)
    (rest : List Frame) (s' : State) : Prop where
  | leaves : s'.stack <:+ rest → s'.control ≠ .returning .done → Turn items body s frame rest s'
  | completes : s'.stack = rest → s.control = .resume → frame.phase.left items = [] →
      Turn items body s frame rest s'
  | raises (exc : Exc) : s'.stack = frame :: rest → s'.control = .raising exc →
      Turn items body s frame rest s'
  | stays : s'.stack = frame :: rest →
      s'.control = s.control ∨ s.control = .returning .done ∧ s'.control = .resume →
      Turn items body s frame rest s'
  | begins : s'.stack = { frame with phase := .body } :: rest → Turn items body s frame rest s'
  | asks : s'.stack = { frame with phase := .adaptive (frame.phase.left items) } :: rest →
      s.control = .resume → s'.control = .awaiting → Turn items body s frame rest s'
  | picks {offered remaining : List Json} {value : Json} :
      s'.stack = { frame with phase := .adaptive remaining } :: rest → s.control = .awaiting →
      frame.phase = .adaptive offered → offered.Perm (value :: remaining) →
      s'.control = .enter ⟨body.forItem (pickNumber items remaining),
        .item (pickNumber items remaining) :: frame.path, value⟩ →
      Turn items body s frame rest s'

section

variable {questions : Questions} {items : List Json} {body : WorkNode} {head : NodeHead}
variable {s : State} {frame : Frame} {rest : List Frame} {now : Rat}

/-- The outcome is silent, and such a turn. -/
def Turns (items : List Json) (body : WorkNode) (s : State) (frame : Frame) (rest : List Frame)
    (outcome : Outcome) : Prop :=
  outcome.1 = [] ∧ Turn items body s frame rest outcome.2

theorem turns_raising (hs : s.stack = frame :: rest) (exc : Exc) :
    Turns items body s frame rest ([], { s with control := .raising exc }) :=
  ⟨rfl, .raises exc hs rfl⟩

theorem turns_leave {status : NodeStatus} {frame' : Frame} {f : NodeRecord → NodeRecord}
    (hstatus : status ≠ .done) :
    Turns items body s frame rest ([], s.leave frame' rest f status) :=
  ⟨rfl, .leaves (List.suffix_refl _) fun h => hstatus (Control.returning.inj h)⟩

theorem resumeFrame_turns (hs : s.stack = frame :: rest) (hc : s.control = .resume)
    (hn : frame.node = .batch head true items body) :
    Turns items body s frame rest (resumeFrame questions frame rest now s) := by
  unfold resumeFrame
  split
  · next h => cases hn.symm.trans h
  · next h => cases hn.symm.trans h
  · next h => cases hn.symm.trans h
  · next h =>
      cases hn.symm.trans h
      dsimp only
      split
      · next hnil =>
          unfold atRecord
          split
          · exact ⟨rfl, .completes rfl hc hnil⟩
          · exact turns_raising hs _
      · exact ⟨rfl, .asks rfl hc rfl⟩
  · next h => cases hn.symm.trans h
  · next h => cases hn.symm.trans h

theorem takeCondition_turns {answers : List String} :
    Turns items body s frame rest (takeCondition frame rest answers now s) := by
  unfold takeCondition
  dsimp only
  split
  · exact ⟨rfl, .begins rfl⟩
  · split
    · exact turns_leave (by decide)
    · split
      · exact turns_leave (by decide)
      · split
        · exact turns_leave (by decide)
        · exact turns_leave (by decide)

theorem takeItem_turns {offered : List Json} {choice : String} (hs : s.stack = frame :: rest)
    (hc : s.control = .awaiting) (hp : frame.phase = .adaptive offered) :
    Turns items body s frame rest (takeItem frame rest items offered body choice s) := by
  unfold takeItem
  split
  · unfold atRecord
    split
    · exact turns_leave (by decide)
    · exact turns_raising hs _
  · next value remaining hpop =>
      obtain ⟨index, -, hpop⟩ := Option.bind_eq_some_iff.mp hpop
      exact ⟨rfl, .picks rfl hc hp (popAt_perm hpop) rfl⟩

theorem returnTo_turns {status : NodeStatus} (hs : s.stack = frame :: rest)
    (hc : s.control = .returning status) (hp : frame.phase.OfBatch) :
    Turns items body s frame rest (returnTo frame rest status now s) := by
  unfold returnTo
  split
  · next h => rw [h] at hp; exact hp.elim
  · next h => rw [h] at hp; exact hp.elim
  · next h => rw [h] at hp; exact hp.elim
  · next h => rw [h] at hp; exact hp.elim
  · next h => rw [h] at hp; exact hp.elim
  · split
    · next hdone => exact ⟨rfl, .stays hs (.inr ⟨hdone ▸ hc, rfl⟩)⟩
    · next hdone => exact turns_leave hdone

theorem unwind_turns {exc : Exc} (hs : s.stack = frame :: rest) (hc : s.control = .raising exc) :
    Turns items body s frame rest (unwind exc s) := by
  unfold unwind
  rw [hs]
  dsimp only
  split
  · exact turns_leave (by decide)
  · exact ⟨rfl, .leaves (List.suffix_refl _) (by simp [hc])⟩

theorem expire_turns {depth : Nat} (hs : s.stack = frame :: rest) :
    Turns items body s frame rest (expire depth s) := by
  unfold expire
  split
  · next frame' rest' hdrop =>
      split
      · next hdepth =>
          obtain ⟨n, rfl⟩ := Nat.exists_eq_succ_of_ne_zero hdepth.1.ne'
          rw [hs, List.drop_succ_cons] at hdrop
          have hsuffix : rest' <:+ rest :=
            (List.suffix_cons frame' rest').trans (hdrop ▸ List.drop_suffix n rest)
          exact ⟨rfl, .leaves hsuffix (by simp [State.leave])⟩
      · exact ⟨rfl, .stays hs (.inl rfl)⟩
  · exact ⟨rfl, .stays hs (.inl rfl)⟩

theorem takeReply_turns {reply : Reply} (hs : s.stack = frame :: rest) (hc : s.control = .awaiting)
    (hn : frame.node = .batch head true items body) (hp : frame.phase.OfBatch) :
    Turns items body s frame rest (takeReply questions frame rest reply now s) := by
  have hstill : Turns items body s frame rest ([], s) := ⟨rfl, .stays hs (.inl rfl)⟩
  cases hphase : frame.phase with
  | condition =>
      unfold takeReply
      rw [hphase]
      split
      all_goals first | contradiction | exact takeCondition_turns | exact turns_raising hs _ | exact hstill
  | body =>
      unfold takeReply
      rw [hphase]
      split
      all_goals first | contradiction | exact hstill
  | adaptive offered =>
      unfold takeReply
      rw [hphase, hn]
      split
      all_goals first | contradiction | exact turns_raising hs _ | exact hstill | skip
      next h =>
        cases h
        exact takeItem_turns hs hc hphase
  | _ => rw [hphase] at hp; exact hp.elim

variable (questions) in
/-- A step with the batch on top, once it is entered. -/
theorem step_turns (input : Input) (hs : s.stack = frame :: rest) (hidle : s.control ≠ .idle)
    (henter : ∀ d, s.control ≠ .enter d) (hn : frame.node = .batch head true items body)
    (hp : frame.phase.OfBatch) :
    Turns items body s frame rest (step questions s input) := by
  have hstill : Turns items body s frame rest ([], s) := ⟨rfl, .stays hs (.inl rfl)⟩
  unfold step
  rw [hs]
  split
  · next h _ => exact absurd h hidle
  · next h _ => exact absurd h hidle
  · next h _ => exact absurd h (henter _)
  · next h _ => exact returnTo_turns hs h hp
  · next h _ => exact resumeFrame_turns hs h hn
  · next h _ => exact unwind_turns hs h
  · exact expire_turns hs
  · next h _ => exact takeReply_turns hs h hn hp
  · exact hstill

end

/-! ## Lists of picks -/

section

variable {items done remaining offered : List Json} {value : Json}

/-- The picks before the items that remain are done. -/
def Settled (items done remaining : List Json) : Prop :=
  (done.take (items.length - remaining.length) ++ remaining).Perm items

/-- The picks before the last one are done. -/
def Picked (items done remaining : List Json) (value : Json) : Prop :=
  (done.take (pickNumber items remaining) ++ value :: remaining).Perm items

theorem Settled.start (items done : List Json) : Settled items done items := by
  simp [Settled]

theorem Settled.perm (h : Settled items done []) (hwithin : done.Subperm items) :
    done.Perm items := by
  rwa [Settled, List.append_nil, List.length_nil, Nat.sub_zero,
    List.take_of_length_le hwithin.length_le] at h

theorem Settled.pick (h : Settled items done offered) (hp : offered.Perm (value :: remaining)) :
    Picked items done remaining value := by
  have hlength : items.length - offered.length = pickNumber items remaining := by
    rw [hp.length_eq, List.length_cons, pickNumber]
    omega
  rw [Settled, hlength] at h
  exact (hp.symm.append_left _).trans h

/-- A pick that has been done before. -/
theorem Picked.settled (h : Picked items done remaining value)
    (hdone : done[pickNumber items remaining]? = some value) : Settled items done remaining := by
  have hlength : items.length - remaining.length = pickNumber items remaining + 1 := by
    have := h.length_eq
    simp only [List.length_append, List.length_cons] at this
    rw [pickNumber]
    omega
  rw [Settled, hlength, List.take_add_one, hdone]
  simpa [Picked] using h

/-- A pick that has not. -/
theorem Picked.fresh (h : Picked items done remaining value)
    (hnone : done[pickNumber items remaining]? = none) :
    (done ++ value :: remaining).Perm items := by
  rwa [Picked, List.take_of_length_le (List.getElem?_eq_none_iff.mp hnone)] at h

theorem pickNumber_eq (h : (done ++ value :: remaining).Perm items) :
    pickNumber items remaining = done.length := by
  have := h.length_eq
  simp only [List.length_append, List.length_cons] at this
  rw [pickNumber]
  omega

theorem settled_of_end (h : (done ++ value :: remaining).Perm items) :
    Settled items (done ++ [value]) remaining := by
  have hlength : (done ++ [value]).length ≤ items.length - remaining.length := by
    have := h.length_eq
    simp only [List.length_append, List.length_cons, List.length_nil] at this ⊢
    omega
  rw [Settled, List.take_of_length_le hlength, List.append_assoc]
  exact h

theorem subperm_of_running (h : (done ++ value :: remaining).Perm items) :
    (value :: done).Subperm items :=
  ((List.sublist_append_left (value :: done) remaining).subperm).trans
    (List.perm_middle.symm.trans h).subperm

/-- What is numbered in order is looked up by position. -/
theorem lookup_of_range {l : List (Nat × Json)} (h : l.map Prod.fst = List.range l.length)
    (k : Nat) : l.lookup k = (l.map Prod.snd)[k]? := by
  induction l using List.reverseRecOn with
  | nil => rfl
  | append_singleton l entry ih =>
      rw [List.map_append, List.length_append, List.length_singleton, List.range_succ] at h
      obtain ⟨hl, hentry⟩ := List.append_inj h (by simp)
      obtain ⟨j, v⟩ := entry
      obtain rfl : j = l.length := by simpa using hentry
      rw [List.lookup_append, ih hl, List.map_append, List.getElem?_append, List.length_map]
      split
      · next hlt => simp [hlt]
      · next hge =>
          rw [List.getElem?_eq_none (by simpa using hge), Option.none_or]
          by_cases hk : k = l.length
          · simp [hk]
          · have : (k == l.length) = false := by simpa using hk
            rw [List.lookup_cons, this, List.getElem?_eq_none (by simp; omega)]
            rfl

end

/-! ## The condition -/

section

variable (questions : Questions)

/-- The record a node is looked up under, if the node takes it over. -/
def State.found (d : Dispatch) (s : State) : Option NodeRecord :=
  (s.store.record? (nodeKey questions d.node s.executor).1).filter fun record =>
    record.signature = some (nodeSignature d.node)

/-- What a pick finds fits the item: a call that has ended was for this item
and is found done; one that has not is not found done, and where it goes on
from what it finds, that was for this item. -/
structure Fits (ended last : Option Json) (found : Option NodeRecord) (item : Json) : Prop where
  done : ∀ item', ended = some item' →
    item' = item ∧ ∃ record, found = some record ∧ record.status = .done
  fresh : ended = none → ∀ record, found = some record →
    record.status ≠ .done ∧ (record.Touched → last = some item)

/-- The events of a run so far. -/
def eventsOf (log : List (Input × List Event)) : List Event := log.flatMap Prod.snd

/-- The batch at the path finds what fits: its picks do, and no node that is
entered while its call runs has that call's key. -/
structure Faithful (plan : WorkPlan) (path : Path) (log : List (Input × List Event)) (s : State)
    (input : Input) : Prop where
  plan : ∀ plan' judged, input.reply = .construct plan' judged → plan' = plan
  picks : ∀ d k, s.control = .enter d → d.path = .item k :: path →
    Fits ((handled path (eventsOf log)).lookup k) (lastItem path k (eventsOf log))
      (s.found questions d) d.item
  apart : ∀ d, s.control = .enter d → ∀ frame ∈ s.stack, ∀ k, frame.path = .item k :: path →
    (nodeKey questions d.node s.executor).1 ≠ frame.key

end

/-! ## Entering a node -/

section

variable {questions : Questions} {s s' : State} {d : Dispatch} {now : Rat}

/-- What becomes of an entered node. -/
inductive Entered (questions : Questions) (s : State) (d : Dispatch) (s' : State) : Prop where
  | found {record : NodeRecord} : s.found questions d = some record → record.status = .done →
      s'.stack = s.stack → s'.store = s.store → s'.control = .returning .done →
      Entered questions s d s'
  | blocked : s'.stack = s.stack → s'.control = .returning .blocked → Extends s.store s'.store →
      (∀ i, i < s.store.objects.length → (s'.store.object i).Touched →
        (s.store.object i).Touched) → Entered questions s d s'
  | opened {ref : Nat} {phase : Phase} :
      s'.stack = ⟨d.node, d.path, d.item, (nodeKey questions d.node s.executor).1,
        (nodeKey questions d.node s.executor).1, ref, 0, phase⟩ :: s.stack →
      Opening phase s'.control → Extends s.store s'.store →
      (∀ i, i < s.store.objects.length → i ≠ ref → (s'.store.object i).Touched →
        (s.store.object i).Touched) →
      (s.store.records.get? (nodeKey questions d.node s.executor).1 = some ref ∨
        ref = s.store.objects.length) →
      s'.store.records.get? (nodeKey questions d.node s.executor).1 = some ref →
      (∀ record, s.found questions d = some record → record.status ≠ .done) →
      ((s'.store.object ref).Touched →
        ∃ record, s.found questions d = some record ∧ record.Touched) →
      Entered questions s d s'

theorem Amends.touched {key : String} {ref i : Nat} {old new : Store} (h : Amends key ref old new)
    (hi : i ≠ ref) (ht : (new.object i).Touched) : (old.object i).Touched := by
  rcases h.others i hi with heq | ⟨-, n, heq⟩
  · rwa [heq] at ht
  · rw [heq] at ht
    exact ht

theorem enterNode_events :
    (enterNode questions d now s).1 = [.entered d.path (nodeKey questions d.node s.executor).1
      (nodeSignature d.node)] := by
  unfold enterNode
  dsimp only
  split
  · rfl
  · split
    · split <;> rfl
    · split <;> rfl

theorem found_of_get? {ref : Nat}
    (h : s.store.records.get? (nodeKey questions d.node s.executor).1 = some ref)
    (hsig : (s.store.object ref).signature = some (nodeSignature d.node)) :
    s.found questions d = some (s.store.object ref) := by
  simp [State.found, Store.record?, h, hsig]

theorem get?_of_found {record : NodeRecord} (h : s.found questions d = some record) :
    ∃ ref, s.store.records.get? (nodeKey questions d.node s.executor).1 = some ref ∧
      record = s.store.object ref ∧ record.signature = some (nodeSignature d.node) := by
  obtain ⟨hrecord, hsig⟩ := Option.filter_eq_some_iff.mp h
  obtain ⟨ref, href, rfl⟩ := Option.map_eq_some_iff.mp hrecord
  exact ⟨ref, href, rfl, of_decide_eq_true hsig⟩

variable (questions now) in
theorem enterNode_entered (hc : s.control = .enter d) :
    Entered questions s d (enterNode questions d now s).2 := by
  have e : Effect questions s ⟨.proceed, now⟩ (enterNode questions d now s).1
      (enterNode questions d now s).2 := enterNode_effect hc
  have hevents : (enterNode questions d now s).1 = _ := enterNode_events
  generalize (enterNode questions d now s).1 = events at e hevents
  generalize (enterNode questions d now s).2 = s' at e
  cases e with
  | @found d' key _ ref he hkey hsig hdone =>
      obtain rfl := Control.enter.inj (he.control.symm.trans hc)
      obtain ⟨-, rfl, -⟩ := Event.entered.inj (List.singleton_inj.mp hevents)
      exact .found (found_of_get? hkey hsig) hdone rfl rfl rfl
  | refuses =>
      exact .blocked rfl rfl (.put _ _ _) fun i hi ht => by rwa [Store.object_put_of_lt hi] at ht
  | @opens d' key _ ref store phase _ he hkey hsig hnot hk _ ho =>
      obtain rfl := Control.enter.inj (he.control.symm.trans hc)
      obtain ⟨-, rfl, -⟩ := Event.entered.inj (List.singleton_inj.mp hevents)
      have hkeeps := hk ⟨d'.node, d'.path, d'.item, "", "", ref, 0, .body⟩
      have hfound : s.found questions d' = some (s.store.object ref) := found_of_get? hkey hsig
      refine .opened rfl ho hkeeps.extends (fun i _ hi => hkeeps.toAmends.touched hi) (.inl hkey)
        (hkeeps.records ▸ hkey) (fun record hr => ?_) fun ht => ⟨_, hfound, ?_⟩
      · obtain rfl := Option.some.inj (hr.symm.trans hfound)
        exact hnot
      · rcases hkeeps.touched ht with ht | hne | hp | ht
        · exact ht
        · exact absurd rfl hne
        · exact hp.elim
        · exact ht
  | @makes d' key _ store phase _ he hno hk _ ho =>
      obtain rfl := Control.enter.inj (he.control.symm.trans hc)
      obtain ⟨-, rfl, -⟩ := Event.entered.inj (List.singleton_inj.mp hevents)
      have hkeeps := hk ⟨d'.node, d'.path, d'.item, "", "", s.store.objects.length, 0, .body⟩
      refine .opened rfl ho ((Extends.put s.store _ _).amend hkeeps.toAmends) (fun i hi hne ht => ?_)
        (.inr rfl) (by rw [hkeeps.records, Store.records_put, Dict.get?_set_self])
        (fun record hr => ?_) fun ht => ?_
      · have := hkeeps.toAmends.touched hne ht
        rwa [Store.object_put_of_lt hi] at this
      · obtain ⟨ref, href, rfl, hsig⟩ := get?_of_found hr
        exact absurd hsig (hno ref href).1
      · exfalso
        rcases hkeeps.touched ht with ht | hne | hp | ht
        · simp [NodeRecord.Touched, NodeRecord.new] at ht
        · exact hne rfl
        · exact hp
        · simp [NodeRecord.Touched, NodeRecord.new] at ht
  | moves _ m =>
      cases m with
      | raises _ hi _ _ => rcases hi with rfl | ⟨_, rfl⟩ <;> simp at hevents
      | enters _ _ hi _ _ _ => rcases hi with rfl | ⟨_, rfl⟩ <;> simp at hevents
      | leaves hi _ _ _ _ => rcases hi with rfl | ⟨_, rfl⟩ <;> simp at hevents
      | _ => simp at hevents
  | fails _ hraising _ => cases hc.symm.trans hraising
  | _ => simp at hevents

end

/-! ## Where a batch stands -/

/-- The call of a pick that runs, under these frames. -/
structure Running (items done remaining : List Json) (last : Option Json) (store : Store)
    (upper : List Frame) (frame : Frame) : Prop where
  items : (done ++ frame.item :: remaining).Perm items
  begun : frame.Begun store → last = some frame.item
  phase : ∀ id, frame.phase ≠ .option id
  apart : ∀ f ∈ upper, f.ref ≠ frame.ref ∧ store.records.get? f.key ≠ some frame.ref

/-- The batch at the path, with what its picks have done. -/
structure Stands (path : Path) (items done : List Json) (last : Nat → Option Json) (s : State) :
    Prop where
  phases : ∀ frame ∈ s.stack, frame.path = path → frame.phase.OfBatch
  settled : ∀ frame rest remaining, s.stack = frame :: rest → frame.path = path →
    frame.phase = .adaptive remaining →
    s.control = .awaiting ∨ s.control = .resume ∨ s.control = .returning .done →
    Settled items done remaining
  picked : ∀ frame rest remaining d, s.stack = frame :: rest → frame.path = path →
    frame.phase = .adaptive remaining → s.control = .enter d →
    Picked items done remaining d.item
  running : ∀ upper frame below rest remaining, s.stack = upper ++ frame :: below :: rest →
    below.path = path → below.phase = .adaptive remaining →
    Running items done remaining (last (pickNumber items remaining)) s.store upper frame

section

variable {questions : Questions} {plan : WorkPlan} {path : Path} {head : NodeHead}
variable {items done remaining : List Json} {body : WorkNode} {outer : Json}
variable {last : Nat → Option Json} {s s' : State} {frame below : Frame} {upper rest : List Frame}

/-- The frames at the path are the batch's. -/
theorem node_at (hbatch : Place questions plan path (.batch head true items body) outer)
    (hplaced : Placed questions s) (hplan : s.executor.plan = plan) (hf : frame ∈ s.stack)
    (hpath : frame.path = path) : frame.node = .batch head true items body := by
  have hplace := (hplaced.stack.placed hf).place
  rw [hplan, hpath] at hplace
  rcases hplace.same hbatch with heq | ⟨-, hcall⟩
  · exact heq
  · cases hcall

theorem Stacked.of_eq (h : Placed questions s) (hs : s.stack = upper ++ rest) :
    Stacked questions s.executor.plan rest :=
  (hs ▸ h.stack : Stacked questions s.executor.plan (upper ++ rest)).of_append

variable (upper) in
/-- A call of the batch hangs below it, under the number of its pick. -/
theorem path_of_running (hbatch : Place questions plan path (.batch head true items body) outer)
    (hplaced : Placed questions s) (hplan : s.executor.plan = plan)
    (hs : s.stack = upper ++ frame :: below :: rest) (hpath : below.path = path)
    (hphase : below.phase = .adaptive remaining) :
    frame.path = .item (pickNumber items remaining) :: path := by
  obtain ⟨-, ⟨step, hawaits, hframe⟩, -⟩ := Stacked.of_eq hplaced hs
  have hnode := node_at hbatch hplaced hplan (show below ∈ s.stack by simp [hs]) hpath
  rw [Frame.awaits, hphase, hnode] at hawaits
  rw [hframe, hpath, ← Option.some.inj hawaits]
  rfl

/-- What hangs under a pick's path hangs below the batch. -/
theorem batch_below (hbatch : Place questions plan path (.batch head true items body) outer)
    (hplaced : Placed questions s) (hplan : s.executor.plan = plan)
    (h : Stands path items done last s) {stack : List Frame} (hsub : ∀ f ∈ stack, f ∈ s.stack)
    {k : Nat} (hhangs : Hangs (.item k :: path) stack) :
    ∃ below rest remaining, stack = below :: rest ∧ below.path = path ∧
      below.phase = .adaptive remaining ∧ k = pickNumber items remaining := by
  cases stack with
  | nil => cases hhangs
  | cons below rest =>
      obtain ⟨step, hawaits, heq⟩ := hhangs
      obtain ⟨rfl, hpath⟩ := List.cons.inj heq
      have hmem := hsub below List.mem_cons_self
      have hnode := node_at hbatch hplaced hplan hmem hpath.symm
      have hphase := h.phases below hmem hpath.symm
      cases hp : below.phase with
      | condition => simp [Frame.awaits, hp] at hawaits
      | body => simp [Frame.awaits, hp] at hawaits
      | adaptive remaining =>
          rw [Frame.awaits, hp, hnode] at hawaits
          refine ⟨below, rest, remaining, rfl, hpath.symm, hp, ?_⟩
          exact (PathStep.item.inj (Option.some.inj hawaits)).symm
      | _ => rw [hp] at hphase; exact hphase.elim

theorem length_lt_of_below (h : Stacked questions plan (frame :: rest)) (hf : below ∈ rest) :
    below.path.length < frame.path.length := by
  obtain ⟨hsuffix, hne⟩ := h.2.1.suffix h.2.2 hf
  exact hsuffix.length_le.lt_of_ne fun hlength => hne (hsuffix.eq_of_length hlength)

theorem Running.keep {store store' : Store} {upper' : List Frame} {item : Option Json}
    (h : Running items done remaining item store upper frame)
    (hrange : frame.ref < store.objects.length) (hx : Extends store store')
    (htouched : (store'.object frame.ref).Touched → (store.object frame.ref).Touched)
    (hupper : ∀ f ∈ upper', f ∈ upper ∨
      f.ref ≠ frame.ref ∧ store'.records.get? f.key ≠ some frame.ref) :
    Running items done remaining item store' upper' frame where
  items := h.items
  begun hb := h.begun (hb.imp_right fun hb => hb.imp_right htouched)
  phase := h.phase
  apart f hf := by
    rcases hupper f hf with hf | hf
    · refine ⟨(h.apart f hf).1, fun hget => ?_⟩
      rcases hx.records _ _ hget with hget | hget
      · exact (h.apart f hf).2 hget
      · exact hrange.ne hget
    · exact hf

/-- Without the batch there is nothing to say. -/
theorem Stands.absent (h : ∀ f ∈ s.stack, f.path ≠ path) : Stands path items done last s where
  phases f hf hpath := absurd hpath (h f hf)
  settled f rest _ hs hpath := absurd hpath (h f (by simp [hs]))
  picked f rest _ _ hs hpath := absurd hpath (h f (by simp [hs]))
  running upper f below rest _ hs hpath := absurd hpath (h below (by simp [hs]))

/-- With the batch on top it is about the batch alone. -/
theorem Stands.top (hs : s.stack = frame :: rest) (hrest : ∀ f ∈ rest, f.path ≠ path)
    (hphase : frame.phase.OfBatch)
    (hsettled : ∀ remaining, frame.phase = .adaptive remaining →
      s.control = .awaiting ∨ s.control = .resume ∨ s.control = .returning .done →
      Settled items done remaining)
    (hpicked : ∀ remaining d, frame.phase = .adaptive remaining → s.control = .enter d →
      Picked items done remaining d.item) : Stands path items done last s where
  phases f hf hpath := by
    rw [hs] at hf
    rcases List.mem_cons.mp hf with rfl | hf
    · exact hphase
    · exact absurd hpath (hrest f hf)
  settled f _ remaining hs' _ hp hc := by
    obtain ⟨rfl, rfl⟩ := List.cons.inj (hs.symm.trans hs')
    exact hsettled remaining hp hc
  picked f _ remaining d hs' _ hp hc := by
    obtain ⟨rfl, rfl⟩ := List.cons.inj (hs.symm.trans hs')
    exact hpicked remaining d hp hc
  running upper f below _ _ hs' hpath := by
    have hbelow : below ∈ rest := by
      rw [hs] at hs'
      cases upper with
      | nil =>
          rw [(List.cons.inj hs').2]
          exact List.mem_cons_self
      | cons _ upper =>
          rw [(List.cons.inj hs').2]
          simp
    exact absurd hpath (hrest below hbelow)

theorem Stands.turn (h : Stands path items done last s) (hplaced : Placed questions s)
    (hs : s.stack = frame :: rest) (hpath : frame.path = path)
    (ht : Turn items body s frame rest s') : Stands path items done last s' := by
  have hstacked : Stacked questions s.executor.plan (frame :: rest) := hs ▸ hplaced.stack
  have hrest : ∀ f ∈ rest, f.path ≠ path := by
    rintro f hf rfl
    have := length_lt_of_below hstacked hf
    rw [hpath] at this
    exact lt_irrefl _ this
  have hphase := h.phases frame (hs ▸ List.mem_cons_self) hpath
  cases ht with
  | leaves hsuffix _ => exact .absent fun f hf => hrest f (hsuffix.subset hf)
  | completes hs' _ _ => exact .absent fun f hf => hrest f (hs' ▸ hf)
  | raises exc hs' hc => exact .top hs' hrest hphase (by simp [hc]) (by simp [hc])
  | stays hs' hc =>
      refine .top hs' hrest hphase (fun remaining hp hcontrol => ?_) fun remaining d hp henter => ?_
      · refine h.settled frame rest remaining hs hpath hp ?_
        rcases hc with hc | ⟨hc, -⟩
        · rwa [← hc]
        · exact .inr (.inr hc)
      · rcases hc with hc | ⟨-, hc⟩
        · exact h.picked frame rest remaining d hs hpath hp (hc ▸ henter)
        · cases hc.symm.trans henter
  | begins hs' => exact .top hs' hrest trivial nofun nofun
  | asks hs' hc hc' =>
      refine .top hs' hrest trivial (fun remaining hp _ => ?_) (by simp [hc'])
      obtain rfl := Phase.adaptive.inj hp
      cases hp' : frame.phase with
      | adaptive remaining => exact h.settled frame rest remaining hs hpath hp' (.inr (.inl hc))
      | _ => exact .start items done
  | picks hs' hc hp hperm hc' =>
      refine .top hs' hrest trivial (by simp [hc']) fun remaining d hp' henter => ?_
      obtain rfl := Phase.adaptive.inj hp'
      obtain rfl := Control.enter.inj (hc'.symm.trans henter)
      exact (h.settled frame rest _ hs hpath hp (.inl hc)).pick hperm

theorem Stands.enter {d : Dispatch}
    (hbatch : Place questions plan path (.batch head true items body) outer)
    (hplaced : Placed questions s) (hplan : s.executor.plan = plan) (hheld : Held s)
    (h : Stands path items done last s) (hc : s.control = .enter d)
    (hfits : ∀ k, d.path = .item k :: path → Fits done[k]? (last k) (s.found questions d) d.item)
    (hapart : ∀ f ∈ s.stack, ∀ k, f.path = .item k :: path →
      (nodeKey questions d.node s.executor).1 ≠ f.key)
    (he : Entered questions s d s') : Stands path items done last s' := by
  -- a pick is entered under its number
  have hnumber : ∀ below rest remaining, s.stack = below :: rest → below.path = path →
      below.phase = .adaptive remaining → d.path = .item (pickNumber items remaining) :: path := by
    intro below rest remaining hs hpath hphase
    obtain ⟨step, hawaits, hdpath⟩ := hs ▸ (hplaced.dispatch d hc).2
    have hnode := node_at hbatch hplaced hplan (show below ∈ s.stack by simp [hs]) hpath
    rw [Frame.awaits, hphase, hnode] at hawaits
    rw [hdpath, hpath, ← Option.some.inj hawaits]
    rfl
  cases he with
  | found hfound hdone hs' hstore hc' =>
      refine ⟨hs' ▸ h.phases, fun frame rest remaining hs hpath hphase _ => ?_, by simp [hc'], ?_⟩
      · rw [hs'] at hs
        have hpicked := h.picked frame rest remaining d hs hpath hphase hc
        have hfit := hfits _ (hnumber frame rest remaining hs hpath hphase)
        cases hget : done[pickNumber items remaining]? with
        | none => exact absurd hdone ((hfit.fresh hget _ hfound).1)
        | some item =>
            rw [(hfit.done item hget).1] at hget
            exact hpicked.settled hget
      · rw [hs', hstore]
        exact h.running
  | blocked hs' hc' hx htouched =>
      refine ⟨hs' ▸ h.phases, by simp [hc'], by simp [hc'], ?_⟩
      intro upper frame below rest remaining hs hpath hphase
      rw [hs'] at hs
      have hrange := hheld.range frame (by simp [hs])
      exact (h.running upper frame below rest remaining hs hpath hphase).keep hrange hx
        (htouched _ hrange) fun f hf => .inl hf
  | @opened ref phase hs' ho hx htouched href hget hopen hfresh =>
      have hphase : phase.OfBatch ∧ (∀ remaining, phase ≠ .adaptive remaining) ∧
          (∀ id, phase ≠ .option id) ∧ ¬ phase.Begun := by
        generalize s'.control = control at ho
        cases ho <;> exact ⟨trivial, by simp, by simp, id⟩
      refine ⟨fun f hf hpath => ?_, fun f _ remaining hs _ hp => ?_, fun f _ remaining _ hs _ hp => ?_,
        fun upper f below rest remaining hs hpath hp => ?_⟩
      · rw [hs'] at hf
        rcases List.mem_cons.mp hf with rfl | hf
        · exact hphase.1
        · exact h.phases f hf hpath
      · obtain ⟨rfl, -⟩ := List.cons.inj (hs'.symm.trans hs)
        exact absurd hp (hphase.2.1 remaining)
      · obtain ⟨rfl, -⟩ := List.cons.inj (hs'.symm.trans hs)
        exact absurd hp (hphase.2.1 remaining)
      · rw [hs'] at hs
        cases upper with
        | nil =>
            -- the call of a pick
            obtain ⟨rfl, hstack⟩ := List.cons.inj hs
            have hpicked := h.picked below rest remaining d hstack hpath hp hc
            have hfit := hfits _ (hnumber below rest remaining hstack hpath hp)
            have hnone : done[pickNumber items remaining]? = none := by
              refine Option.eq_none_iff_forall_ne_some.mpr fun item hitem => ?_
              obtain ⟨-, record, hrecord, hdone⟩ := hfit.done item hitem
              exact hopen record hrecord hdone
            refine ⟨hpicked.fresh hnone, fun hbegun => ?_, hphase.2.2.1, by simp⟩
            rcases hbegun with hne | hbegun | hbegun
            · exact absurd rfl hne
            · exact absurd hbegun hphase.2.2.2
            · obtain ⟨record, hrecord, ht⟩ := hfresh hbegun
              exact (hfit.fresh hnone record hrecord).2 ht
        | cons top upper =>
            obtain ⟨rfl, hstack⟩ := List.cons.inj hs
            have hmem : f ∈ s.stack := by simp [hstack]
            have hrange := hheld.range f hmem
            have hne : ref ≠ f.ref := by
              rintro rfl
              rcases href with href | href
              · exact hapart f hmem _ (path_of_running upper hbatch hplaced hplan hstack hpath hp)
                  (hheld.own f hmem _ href)
              · exact hrange.ne href
            refine (h.running upper f below rest remaining hstack hpath hp).keep hrange hx
              (htouched _ hrange hne.symm) fun g hg => ?_
            rcases List.mem_cons.mp hg with rfl | hg
            · exact .inr ⟨hne, fun heq => hne (Option.some.inj (hget.symm.trans heq))⟩
            · exact .inl hg

/-! ## The moves of the other frames -/

theorem Move.touched {events : List Event} (m : Move s frame rest events s') {i : Nat}
    (hi : i < s.store.objects.length) (hne : i ≠ frame.ref)
    (hkey : s.store.records.get? frame.key ≠ some i) (ht : (s'.store.object i).Touched) :
    (s.store.object i).Touched := by
  have howns : ∀ ref, Owns s frame ref → i ≠ ref := by
    rintro ref (rfl | hget) rfl
    · exact hne rfl
    · exact hkey hget
  cases m with
  | still => exact ht
  | stray _ => exact ht
  | raises _ _ hk _ => exact hk.toAmends.touched hne ht
  | awaits hk _ _ _ _ _ => exact hk.toAmends.touched hne ht
  | resumes hk _ => exact hk.toAmends.touched hne ht
  | dispatches _ _ hk _ => exact hk.toAmends.touched hne ht
  | enters _ _ _ hk _ _ => exact hk.toAmends.touched hne ht
  | chooses _ ha _ _ _ => exact ha.touched hne ht
  | leaves _ ho hk _ _ => exact hk.toAmends.touched (howns _ ho) ht
  | completes _ ho hk => exact hk.toAmends.touched (howns _ ho) ht
  | ends _ hk _ => exact hk.toAmends.touched hne ht
  | repeats _ hk _ _ _ =>
      refine hk.toAmends.touched hne ?_
      rwa [Store.object_put_of_lt (by rw [hk.length]; exact hi)] at ht
  | handled _ _ hk _ => exact hk.toAmends.touched hne ht
  | advances _ _ hk _ => exact hk.toAmends.touched hne ht

theorem Move.quiet {events : List Event} (m : Move s frame rest events s')
    (hno : ∀ k, frame.path ≠ .item k :: path) : ∀ event ∈ events, event.Quiet path := by
  have hinterrupt : MayInterrupt frame events → ∀ event ∈ events, event.Quiet path := by
    rintro (rfl | ⟨attempt, rfl⟩) <;> simp [Event.Quiet, Event.itemOf, Event.endOf]
  cases m with
  | raises _ hi _ _ => exact hinterrupt hi
  | enters _ _ hi _ _ _ => exact hinterrupt hi
  | leaves hi _ _ _ _ => exact hinterrupt hi
  | dispatches _ _ _ _ => simp [Event.Quiet, Event.itemOf, Event.endOf, hno]
  | ends _ _ _ =>
      intro event hmem
      obtain rfl := List.mem_singleton.mp hmem
      refine ⟨fun _ => rfl, ?_⟩
      unfold Event.endOf
      split
      · next k place _ _ heq =>
          rw [if_neg]
          rintro rfl
          exact hno k (Event.ended.inj heq).1
      · rfl
  | _ => simp [Event.Quiet, Event.itemOf, Event.endOf]

/-- The call of a pick, below the frame that moves. -/
theorem Stands.running_moved {events : List Event} {top below' : Frame} {rest' : List Frame}
    (h : Stands path items done last s) (hheld : Held s) (hs : s.stack = top :: rest)
    (m : Move s top rest events s')
    (hrest : rest = upper ++ frame :: below' :: rest') (hpath : below'.path = path)
    (hp : below'.phase = .adaptive remaining) {upper' : List Frame}
    (hupper : ∀ f ∈ upper', f ∈ upper ∨ Continues s.store s'.store top f) :
    Running items done remaining (last (pickNumber items remaining)) s'.store upper' frame := by
  have hs' : s.stack = (top :: upper) ++ frame :: below' :: rest' := by rw [hs, hrest]; rfl
  have hrun := h.running (top :: upper) frame below' rest' remaining hs' hpath hp
  have hrange := hheld.range frame (by simp [hs'])
  obtain ⟨htop, hkey⟩ := hrun.apart top List.mem_cons_self
  refine hrun.keep hrange m.extends (m.touched hrange htop.symm hkey) fun f hf => ?_
  rcases hupper f hf with hf | hc
  · exact .inl (List.mem_cons_of_mem _ hf)
  · refine .inr ?_
    rcases hc.holds with ⟨hkey', href'⟩ | ⟨href', hget⟩
    · rw [hkey', href']
      refine ⟨htop, fun hget => ?_⟩
      rcases m.extends.records _ _ hget with hget | hget
      · exact hkey hget
      · exact hrange.ne hget
    · rw [hget, href']
      refine ⟨hrange.ne', fun heq => hrange.ne' ?_⟩
      rw [← href']
      exact (Option.some.inj (href' ▸ heq))

/-- A move of a frame that is no call of a pick, nor the batch. -/
theorem Stands.other {events : List Event}
    (hbatch : Place questions plan path (.batch head true items body) outer)
    (hplaced : Placed questions s) (hplan : s.executor.plan = plan) (hheld : Held s)
    (h : Stands path items done last s) (hs : s.stack = frame :: rest) (hne : frame.path ≠ path)
    (hno : ∀ k, frame.path ≠ .item k :: path) (m : Move s frame rest events s') :
    Stands path items done last s' := by
  have hhangs : Hangs frame.path rest := (hs ▸ hplaced.stack : Stacked _ _ (frame :: rest)).2.1
  -- the frame hangs on no batch of the path
  have hbelow : ∀ below rest' remaining, rest = below :: rest' → below.path = path →
      below.phase ≠ .adaptive remaining := by
    rintro below rest' remaining rfl hpath hp
    exact hno _ (path_of_running [] hbatch hplaced hplan hs hpath hp)
  rcases m.top hs with hs' | ⟨frame', hs', hc⟩
  · refine ⟨fun f hf => h.phases f (by rw [hs, ← hs']; exact List.mem_cons_of_mem _ hf),
      fun f r remaining hr hpath hp => ?_, fun f r remaining _ hr hpath hp => ?_,
      fun upper f below r remaining hr hpath hp => ?_⟩
    · exact absurd hp (hbelow f r remaining (hs'.symm.trans hr) hpath)
    · exact absurd hp (hbelow f r remaining (hs'.symm.trans hr) hpath)
    · exact h.running_moved hheld hs m (hs'.symm.trans hr) hpath hp fun f hf => .inl hf
  · refine ⟨fun f hf hpath => ?_, fun f r remaining hr hpath hp => ?_,
      fun f r remaining _ hr hpath hp => ?_, fun upper f below r remaining hr hpath hp => ?_⟩
    · rw [hs'] at hf
      rcases List.mem_cons.mp hf with rfl | hf
      · exact absurd (hc.path.symm.trans hpath) hne
      · exact h.phases f (by rw [hs]; exact List.mem_cons_of_mem _ hf) hpath
    · obtain ⟨rfl, -⟩ := List.cons.inj (hs'.symm.trans hr)
      exact absurd (hc.path.symm.trans hpath) hne
    · obtain ⟨rfl, -⟩ := List.cons.inj (hs'.symm.trans hr)
      exact absurd (hc.path.symm.trans hpath) hne
    · rw [hs'] at hr
      cases upper with
      | nil => exact absurd hp (hbelow below r remaining (List.cons.inj hr).2 hpath)
      | cons top upper =>
          obtain ⟨rfl, hrest⟩ := List.cons.inj hr
          refine h.running_moved hheld hs m hrest hpath hp fun f hf => ?_
          rcases List.mem_cons.mp hf with rfl | hf
          · exact .inr hc
          · exact .inl hf

/-! ## The call of a pick -/

theorem isCall_forItem (node : WorkNode) (k : Nat) : (node.forItem k).isCall = node.isCall := by
  cases node <;> rfl

/-- The node of a pick is the body. -/
theorem isCall_of_running (hbatch : Place questions plan path (.batch head true items body) outer)
    (hbody : body.isCall) (hplaced : Placed questions s) (hplan : s.executor.plan = plan)
    (hs : s.stack = frame :: below :: rest) (hpath : below.path = path)
    (hp : below.phase = .adaptive remaining)
    (hrun : (done ++ frame.item :: remaining).Perm items) : frame.node.isCall := by
  have hplace := (hplaced.stack.placed (show frame ∈ s.stack by simp [hs])).place
  rw [hplan, path_of_running [] hbatch hplaced hplan hs hpath hp] at hplace
  have hitem : frame.item ∈ items := hrun.subset (by simp)
  rcases hplace.same (.adaptive hbatch hitem) with heq | ⟨hcall, -⟩
  · rw [heq, isCall_forItem]
    exact hbody
  · exact hcall

/-- The call stays on top. -/
theorem Stands.call_top {frame' : Frame} {last' : Nat → Option Json}
    (h : Stands path items done last s) (hs : s.stack = frame :: below :: rest)
    (hp : below.phase = .adaptive remaining) (hrest : ∀ f ∈ rest, f.path ≠ path)
    (hs' : s'.stack = frame' :: below :: rest)
    (hne : frame'.path ≠ path)
    (hrun : Running items done remaining (last' (pickNumber items remaining)) s'.store [] frame') :
    Stands path items done last' s' where
  phases f hf hpath := by
    rw [hs'] at hf
    rcases List.mem_cons.mp hf with rfl | hf
    · exact absurd hpath hne
    · exact h.phases f (by rw [hs]; exact List.mem_cons_of_mem _ hf) hpath
  settled f _ _ hr hpath := by
    obtain ⟨rfl, -⟩ := List.cons.inj (hs'.symm.trans hr)
    exact absurd hpath hne
  picked f _ _ _ hr hpath := by
    obtain ⟨rfl, -⟩ := List.cons.inj (hs'.symm.trans hr)
    exact absurd hpath hne
  running upper f below' r remaining' hr hpath hp' := by
    rw [hs'] at hr
    cases upper with
    | nil =>
        obtain ⟨rfl, htail⟩ := List.cons.inj hr
        obtain ⟨rfl, -⟩ := List.cons.inj htail
        obtain rfl := Phase.adaptive.inj (hp.symm.trans hp')
        exact hrun
    | cons top upper =>
        have hmem : below' ∈ rest := by
          have htail := (List.cons.inj hr).2
          cases upper with
          | nil =>
              rw [(List.cons.inj htail).2]
              exact List.mem_cons_self
          | cons _ upper =>
              rw [(List.cons.inj htail).2]
              simp
        exact absurd hpath (hrest below' hmem)

theorem begun_of_keeps {store : Store} {phase : Phase} (hk : Keeps frame frame.ref s.store store)
    (hphase : phase.Begun → frame.Begun s.store)
    (hb : ({ frame with phase } : Frame).Begun store) : frame.Begun s.store := by
  rcases hb with hb | hb | hb
  · exact .inl hb
  · exact hphase hb
  · rcases hk.touched hb with ht | hb
    · exact .inr (.inr ht)
    · exact hb

theorem MayInterrupt.quiet_picks {events : List Event} (h : MayInterrupt frame events) :
    ∀ event ∈ events, event.Quiet path := by
  rcases h with rfl | ⟨attempt, rfl⟩
  · nofun
  · intro event hmem
    obtain rfl := List.mem_singleton.mp hmem
    exact ⟨fun _ => rfl, rfl⟩

/-- What a move of the call of a pick does to the batch. -/
inductive CallMoves (path : Path) (items done remaining : List Json) (last : Nat → Option Json)
    (frame : Frame) (events : List Event) (s' : State) : Prop where
  | quiet : (∀ event ∈ events, event.Quiet path) → Stands path items done last s' →
      CallMoves path items done remaining last frame events s'
  | dispatches {baseKey callId tool : String} {values : Json} :
      events = [.dispatched (.item (pickNumber items remaining) :: path) baseKey callId tool values
        frame.item] →
      Stands path items done
        (Function.update last (pickNumber items remaining) (some frame.item)) s' →
      CallMoves path items done remaining last frame events s'
  | ends {baseKey callId : String} :
      events = [.ended (.item (pickNumber items remaining) :: path) baseKey callId] →
      last (pickNumber items remaining) = some frame.item →
      Stands path items (done ++ [frame.item]) last s' →
      CallMoves path items done remaining last frame events s'

theorem Stands.call {events : List Event}
    (hbatch : Place questions plan path (.batch head true items body) outer) (hbody : body.isCall)
    (hplaced : Placed questions s) (hplan : s.executor.plan = plan)
    (h : Stands path items done last s) (hs : s.stack = frame :: below :: rest)
    (hbelow : below.path = path) (hp : below.phase = .adaptive remaining)
    (m : Move s frame (below :: rest) events s') :
    CallMoves path items done remaining last frame events s' := by
  have hpath := path_of_running [] hbatch hplaced hplan hs hbelow hp
  have hrun := h.running [] frame below rest remaining hs hbelow hp
  have hcall := isCall_of_running hbatch hbody hplaced hplan hs hbelow hp hrun.items
  have hne : frame.path ≠ path := by
    rw [hpath]
    exact List.cons_ne_self _ _
  have hrest : ∀ f ∈ rest, f.path ≠ path := by
    rintro f hf rfl
    have hstacked : Stacked questions s.executor.plan (below :: rest) :=
      (hs ▸ hplaced.stack : Stacked _ _ (frame :: below :: rest)).2.2
    have := length_lt_of_below hstacked hf
    rw [hbelow] at this
    exact lt_irrefl _ this
  have hphase := h.phases below (by simp [hs]) hbelow
  -- the frame stays on top, in some phase
  have hstay : ∀ {store : Store} {phase : Phase} {s'' : State},
      Keeps frame frame.ref s.store store → (phase.Begun → frame.Begun s.store) →
      (∀ id, phase ≠ .option id) → s''.stack = { frame with phase } :: below :: rest →
      s''.store = store → Stands path items done last s'' := by
    intro store phase s'' hk hb ho hs'' hstore
    refine h.call_top hs hp hrest hs'' hne ⟨hrun.items, fun hb' => ?_, ho, nofun⟩
    exact hrun.begun (begun_of_keeps hk hb (hstore ▸ hb'))
  cases m with
  | still => exact .quiet nofun h
  | stray _ => exact .quiet nofun (hstay (.refl ..) (fun hb => .inr (.inl hb)) hrun.phase hs rfl)
  | raises _ hi hk _ =>
      exact .quiet hi.quiet_picks (hstay hk (fun hb => .inr (.inl hb)) hrun.phase rfl rfl)
  | awaits hk _ _ hb ha _ =>
      exact .quiet nofun (hstay hk hb (by rintro id rfl; exact ha) rfl rfl)
  | resumes hk _ => exact .quiet nofun (hstay hk False.elim (by rintro id ⟨⟩) rfl rfl)
  | dispatches hn hvalues hk _ =>
      refine .dispatches (by rw [hpath]) (h.call_top hs hp hrest rfl hne ?_)
      exact ⟨hrun.items, fun _ => by rw [Function.update_self], nofun, nofun⟩
  | @enters _ _ phase _ _ _ hchild _ hi hk _ hb =>
      refine .quiet hi.quiet_picks (hstay hk hb ?_ rfl rfl)
      rintro id rfl
      cases hchild with
      | option hn _ => rw [hn] at hcall; cases hcall
  | chooses hchild _ _ _ _ =>
      cases hchild with
      | option hn _ => rw [hn] at hcall; cases hcall
  | leaves hi _ _ _ hstatus =>
      refine .quiet hi.quiet_picks (.top rfl hrest hphase (fun _ _ hc => ?_) nofun)
      rcases hc with hc | hc | hc
      · cases hc
      · cases hc
      · exact absurd (Control.returning.inj hc) hstatus
  | completes hfinished _ _ =>
      exfalso
      cases hfinished with
      | wait hn => rw [hn] at hcall; cases hcall
      | sequence _ hn _ _ => rw [hn] at hcall; cases hcall
      | batch _ hn _ _ => rw [hn] at hcall; cases hcall
      | adaptive hn => rw [hn] at hcall; cases hcall
      | option ho _ => exact hrun.phase _ ho
  | ends c hk _ =>
      refine .ends (by rw [hpath]) (hrun.begun c.begun)
        (.top rfl hrest hphase (fun remaining' hp' _ => ?_) nofun)
      obtain rfl := Phase.adaptive.inj (hp.symm.trans hp')
      exact settled_of_end hrun.items
  | repeats c hk _ _ _ =>
      refine .quiet (by simp [Event.Quiet, Event.itemOf, Event.endOf])
        (h.call_top hs hp hrest rfl hne ?_)
      exact ⟨hrun.items, fun _ => hrun.begun c.begun, nofun, nofun⟩
  | handled ho _ hk _ =>
      refine .quiet (by simp [Event.Quiet, Event.itemOf, Event.endOf])
        (hstay hk (fun _ => Frame.begun_of_phase ?_) (by rintro id ⟨⟩) rfl rfl)
      rw [ho]
      trivial
  | advances ha _ hk _ =>
      refine .quiet nofun (hstay hk ?_ ?_ rfl rfl)
      · generalize frame.phase = old at ha
        cases ha <;> exact False.elim
      · generalize frame.phase = old at ha
        cases ha <;> nofun

/-! ## One step -/

variable (upper) in
/-- Frames go, and nothing goes on. -/
theorem Stands.drop (h : Stands path items done last s) (hheld : Held s)
    (hs : s.stack = upper ++ rest) (hs' : s'.stack = rest)
    (hc : s'.control = .returning .blocked ∨ ∃ exc, s'.control = .raising exc)
    (hx : Extends s.store s'.store)
    (htouched : ∀ i, (∀ f ∈ upper, f.ref ≠ i) → (s'.store.object i).Touched →
      (s.store.object i).Touched) : Stands path items done last s' where
  phases f hf := h.phases f (by rw [hs, ← hs']; exact List.mem_append_right _ hf)
  settled _ _ _ _ _ _ hsettled := by
    rcases hc with hc | ⟨exc, hc⟩ <;> simp [hc] at hsettled
  picked _ _ _ _ _ _ _ henter := by
    rcases hc with hc | ⟨exc, hc⟩ <;> simp [hc] at henter
  running upper' f below r remaining hr hpath hp := by
    have hstack : s.stack = (upper ++ upper') ++ f :: below :: r := by
      rw [hs, ← hs', hr, List.append_assoc]
    have hrun := h.running _ f below r remaining hstack hpath hp
    refine hrun.keep (hheld.range f (by simp [hstack])) hx (htouched _ fun g hg => ?_)
      fun g hg => .inl (List.mem_append_right _ hg)
    exact (hrun.apart g (List.mem_append_left _ hg)).1

/-- What a step does to the batch. -/
inductive BatchMoves (path : Path) (items done : List Json) (last : Nat → Option Json)
    (events : List Event) (s' : State) : Prop where
  | quiet : (∀ event ∈ events, event.Quiet path) → Stands path items done last s' →
      BatchMoves path items done last events s'
  | call {frame : Frame} {remaining : List Json} : (done ++ frame.item :: remaining).Perm items →
      CallMoves path items done remaining last frame events s' →
      BatchMoves path items done last events s'

variable (questions) in
theorem step_enter {d : Dispatch} (input : Input) (hc : s.control = .enter d) :
    step questions s input = enterNode questions d input.now s ∨
      step questions s input = ([], s) := by
  unfold step
  split
  · next h _ => cases h.symm.trans hc
  · next h _ => cases h.symm.trans hc
  · next h _ =>
      obtain rfl := Control.enter.inj (h.symm.trans hc)
      exact .inl rfl
  · next h _ => cases h.symm.trans hc
  · next h _ => cases h.symm.trans hc
  · next h _ => cases h.symm.trans hc
  · next h _ => cases h.symm.trans hc
  · next hawaits _ => cases hawaits.symm.trans hc
  · exact .inr rfl

theorem Stands.step (input : Input)
    (hbatch : Place questions plan path (.batch head true items body) outer) (hbody : body.isCall)
    (hplaced : Placed questions s) (hplan : s.executor.plan = plan) (hheld : Held s)
    (h : Stands path items done last s)
    (hfits : ∀ d k, s.control = .enter d → d.path = .item k :: path →
      Fits done[k]? (last k) (s.found questions d) d.item)
    (hapart : ∀ d, s.control = .enter d → ∀ frame ∈ s.stack, ∀ k, frame.path = .item k :: path →
      (nodeKey questions d.node s.executor).1 ≠ frame.key) :
    BatchMoves path items done last (step questions s input).1 (step questions s input).2 := by
  by_cases henter : ∃ d, s.control = .enter d
  · obtain ⟨d, hc⟩ := henter
    rcases step_enter questions input hc with heq | heq
    · rw [heq]
      refine .quiet ?_ (h.enter hbatch hplaced hplan hheld hc (fun k => hfits d k hc)
        (hapart d hc) (enterNode_entered questions _ hc))
      rw [enterNode_events]
      simp [Event.Quiet, Event.itemOf, Event.endOf]
    · rw [heq]
      exact .quiet nofun h
  · replace henter : ∀ d, s.control ≠ .enter d := fun d hd => henter ⟨d, hd⟩
    by_cases htop : ∃ frame rest, s.stack = frame :: rest ∧ frame.path = path
    · obtain ⟨frame, rest, hs, hpath⟩ := htop
      have hmem : frame ∈ s.stack := by simp [hs]
      have hidle : s.control ≠ .idle := fun hidle => by simp [hplaced.idle hidle] at hs
      obtain ⟨hevents, hturn⟩ := step_turns questions input hs hidle
        henter (node_at hbatch hplaced hplan hmem hpath) (h.phases frame hmem hpath)
      exact .quiet (by simp [hevents]) (h.turn hplaced hs hpath hturn)
    · have e : Effect questions s input _ _ := step_effect s input
      generalize (WorkRuntime.step questions s input).1 = events at e
      generalize (WorkRuntime.step questions s input).2 = s' at e
      cases e with
      | still => exact .quiet nofun h
      | construct _ _ _ => exact .quiet nofun ⟨h.phases, h.settled, h.picked, h.running⟩
      | start _ _ => exact .quiet nofun (.absent nofun)
      | found he _ _ _ => exact absurd he.control (henter _)
      | refuses he _ _ _ _ _ => exact absurd he.control (henter _)
      | opens he _ _ _ _ _ _ => exact absurd he.control (henter _)
      | makes he _ _ _ _ => exact absurd he.control (henter _)
      | @moves frame rest _ _ hs m =>
          by_cases hpick : ∃ k, frame.path = .item k :: path
          · obtain ⟨k, hk⟩ := hpick
            have hhangs : Hangs frame.path rest :=
              (hs ▸ hplaced.stack : Stacked _ _ (frame :: rest)).2.1
            obtain ⟨below, rest, remaining, rfl, hbelow, hp, -⟩ :=
              batch_below hbatch hplaced hplan h
                (fun f hf => by rw [hs]; exact List.mem_cons_of_mem _ hf) (hk ▸ hhangs)
            exact .call (h.running [] frame below rest remaining hs hbelow hp).items
              (h.call hbatch hbody hplaced hplan hs hbelow hp m)
          · have hno : ∀ k, frame.path ≠ .item k :: path := fun k hk => hpick ⟨k, hk⟩
            exact .quiet (m.quiet hno) (h.other hbatch hplaced hplan hheld hs
              (fun hpath => htop ⟨frame, rest, hs, hpath⟩) hno m)
      | finishes hs _ =>
          refine .quiet ?_ (.absent (by simp [hs]))
          simp [Event.Quiet, Event.itemOf, Event.endOf]
      | fails hs _ hevent =>
          refine .quiet ?_ (.absent (by simp [hs]))
          rcases hevent with rfl | rfl | rfl <;> simp [Event.Quiet, Event.itemOf, Event.endOf]
      | @unwinds frame rest exc hs hc =>
          exact .quiet nofun (h.drop [frame] hheld hs rfl (.inr ⟨exc, hc⟩) (.refl _)
            fun _ _ ht => ht)
      | @cuts upper rest frame store hs hk _ =>
          have hs₁ : s.stack = (upper ++ [frame]) ++ rest := by simp [hs]
          refine .quiet nofun (h.drop _ hheld hs₁ rfl (.inl rfl) hk.extends fun i hi => ?_)
          exact hk.toAmends.touched (hi frame (by simp)).symm

end

/-! ## The events -/

/-- What the events say of the batch at the path: its calls end in the order
of their numbers, for items of the batch, and each is dispatched for an item
that has one left. -/
structure Tally (path : Path) (items : List Json) (events : List Event) : Prop where
  numbers : (handled path events).map Prod.fst = List.range (handled path events).length
  within : (handledItems path events).Subperm items
  fair : ∀ pre post k baseKey callId tool values item,
    events = pre ++ .dispatched (.item k :: path) baseKey callId tool values item :: post →
    (item :: handledItems path pre).Subperm items

section

variable {path : Path} {items done remaining : List Json} {events more : List Event}
variable {frame : Frame} {s' : State}

theorem eq_append_cons {pre post : List Event} {event : Event}
    (h : events ++ more = pre ++ event :: post) :
    (∃ post', events = pre ++ event :: post') ∨
      ∃ pre', pre = events ++ pre' ∧ more = pre' ++ event :: post := by
  rcases List.append_eq_append_iff.mp h with ⟨pre', hpre, hmore⟩ | ⟨rest, hevents, hrest⟩
  · exact .inr ⟨pre', hpre, hmore⟩
  · cases rest with
    | nil => exact .inr ⟨[], by simp [hevents], by simpa using hrest.symm⟩
    | cons event' rest =>
        obtain ⟨rfl, -⟩ := List.cons.inj hrest
        exact .inl ⟨rest, hevents⟩

theorem handledItems_append_quiet (h : ∀ event ∈ more, event.Quiet path) :
    handledItems path (events ++ more) = handledItems path events := by
  rw [handledItems, handled_append_quiet h]
  rfl

theorem not_quiet_dispatched {k : Nat} {baseKey callId tool : String} {values item : Json} :
    ¬ (Event.dispatched (.item k :: path) baseKey callId tool values item).Quiet path := by
  intro h
  have := h.1 k
  simp [Event.itemOf] at this

theorem Tally.quiet (h : Tally path items events) (hq : ∀ event ∈ more, event.Quiet path) :
    Tally path items (events ++ more) where
  numbers := by
    rw [handled_append_quiet hq]
    exact h.numbers
  within := by
    rw [handledItems_append_quiet hq]
    exact h.within
  fair pre post k baseKey callId tool values item heq := by
    rcases eq_append_cons heq with ⟨post', hevents⟩ | ⟨pre', -, hmore⟩
    · exact h.fair _ _ _ _ _ _ _ _ hevents
    · have hmem : Event.dispatched (.item k :: path) baseKey callId tool values item ∈ more := by
        rw [hmore]
        exact List.mem_append_right _ List.mem_cons_self
      exact absurd (hq _ hmem) not_quiet_dispatched

theorem handled_dispatched {place : Path} {baseKey callId tool : String} {values item : Json} :
    handled path (events ++ [.dispatched place baseKey callId tool values item])
      = handled path events := by
  rw [handled_append_singleton]
  exact List.append_nil _

theorem handledItems_dispatched {place : Path} {baseKey callId tool : String}
    {values item : Json} :
    handledItems path (events ++ [.dispatched place baseKey callId tool values item])
      = handledItems path events := by
  rw [handledItems, handled_dispatched]
  rfl

/-- The call of a pick is dispatched. -/
theorem Tally.dispatch (h : Tally path items events)
    (hrun : (handledItems path events ++ frame.item :: remaining).Perm items)
    {k : Nat} {baseKey callId tool : String} {values : Json} :
    Tally path items
      (events ++ [.dispatched (.item k :: path) baseKey callId tool values frame.item]) := by
  refine ⟨by rw [handled_dispatched]; exact h.numbers,
    by rw [handledItems_dispatched]; exact h.within, ?_⟩
  intro pre post k' _ _ _ _ item heq
  rcases eq_append_cons heq with ⟨post', hevents⟩ | ⟨pre', hpre, hmore⟩
  · exact h.fair _ _ _ _ _ _ _ _ hevents
  · cases pre' with
    | nil =>
        have hitem := (Event.dispatched.inj (List.cons.inj hmore).1).2.2.2.2.2
        rw [hpre, List.append_nil, ← hitem]
        exact subperm_of_running hrun
    | cons _ pre' => simp at hmore

/-- The call of a pick ends. -/
theorem Tally.finish (h : Tally path items events)
    (hrun : (handledItems path events ++ frame.item :: remaining).Perm items)
    {baseKey callId : String}
    (hlast : lastItem path (pickNumber items remaining) events = some frame.item) :
    Tally path items
        (events ++ [.ended (.item (pickNumber items remaining) :: path) baseKey callId]) ∧
      handledItems path
          (events ++ [.ended (.item (pickNumber items remaining) :: path) baseKey callId])
        = handledItems path events ++ [frame.item] := by
  have hhandled : handled path
      (events ++ [.ended (.item (pickNumber items remaining) :: path) baseKey callId])
      = handled path events ++ [(pickNumber items remaining, frame.item)] := by
    rw [handled_append_singleton]
    simp [Event.endOf, hlast]
  have hitems : handledItems path
      (events ++ [.ended (.item (pickNumber items remaining) :: path) baseKey callId])
      = handledItems path events ++ [frame.item] := by
    rw [handledItems, hhandled, List.map_append]
    rfl
  refine ⟨⟨?_, ?_, ?_⟩, hitems⟩
  · rw [hhandled, List.map_append, h.numbers, List.length_append, List.length_singleton,
      List.range_succ, pickNumber_eq hrun, handledItems, List.length_map]
    rfl
  · rw [hitems]
    exact List.perm_append_singleton _ _ |>.subperm.trans (subperm_of_running hrun)
  · intro pre post k' _ _ _ _ item heq
    rcases eq_append_cons heq with ⟨post', hevents⟩ | ⟨pre', -, hmore⟩
    · exact h.fair _ _ _ _ _ _ _ _ hevents
    · cases pre' with
      | nil => cases (List.cons.inj hmore).1
      | cons _ pre' => simp at hmore

end

/-! ## Runs -/

/-- What holds of the batch at the path wherever a run stands. -/
structure Tracked (questions : Questions) (plan : WorkPlan) (path : Path) (items : List Json)
    (events : List Event) (s : State) : Prop where
  placed : Placed questions s
  plan : s.executor.plan = plan
  held : Held s
  tally : Tally path items events
  stands : Stands path items (handledItems path events) (fun k => lastItem path k events) s

/-- The batch at the path is done with this step. -/
def Completes (questions : Questions) (path : Path) (s : State) (input : Input) : Prop :=
  ∃ frame rest, s.stack = frame :: rest ∧ frame.path = path ∧
    (step questions s input).2.stack = rest ∧
    (step questions s input).2.control = .returning .done

/-- A new executor over a dictionary of records. -/
structure StartsWith (plan : WorkPlan) (records : Dict String NodeRecord) (s : State) : Prop where
  store : s.store = .ofRecords records
  plan : s.executor.plan = plan
  stack : s.stack = []
  control : s.control = .idle

section

variable {questions : Questions} {plan : WorkPlan} {path : Path} {head : NodeHead}
variable {items : List Json} {body : WorkNode} {outer : Json} {s : State}
variable {log : List (Input × List Event)} {records : Dict String NodeRecord}

theorem eventsOf_append_singleton (log : List (Input × List Event)) (input : Input)
    (events : List Event) : eventsOf (log ++ [(input, events)]) = eventsOf log ++ events := by
  simp [eventsOf]

theorem Tracked.start (h : StartsWith plan records s) :
    Tracked questions plan path items [] s where
  placed := ⟨fun _ => h.stack, by simp [h.stack, Stacked], fun d hd => by simp [h.control] at hd⟩
  plan := h.plan
  held := held_of (h.store ▸ Store.sound_ofRecords records) (by simp [h.stack])
  tally :=
    { numbers := rfl
      within := List.nil_subperm
      fair := fun pre _ _ _ _ _ _ _ heq => by cases pre <;> cases heq }
  stands := .absent (by simp [h.stack])

theorem Tracked.step {input : Input}
    (hbatch : Place questions plan path (.batch head true items body) outer) (hbody : body.isCall)
    (h : Tracked questions plan path items (eventsOf log) s)
    (hok : Faithful questions plan path log s input) :
    Tracked questions plan path items
      (eventsOf (log ++ [(input, (step questions s input).1)])) (step questions s input).2 := by
  have hplan : (WorkRuntime.step questions s input).2.executor.plan = plan := by
    rcases step_plan questions s input with heq | ⟨judged, hr⟩
    · exact heq.trans h.plan
    · exact hok.plan _ _ hr
  have hmoves := h.stands.step input hbatch hbody h.placed h.plan h.held
    (fun d k hc hpath => ?_) hok.apart
  · rw [eventsOf_append_singleton]
    have hplaced := step_placed h.placed input
    have hheld : Held (WorkRuntime.step questions s input).2 := step_held h.held input
    generalize (WorkRuntime.step questions s input).1 = events at hmoves ⊢
    generalize (WorkRuntime.step questions s input).2 = s' at hmoves hplan hplaced hheld ⊢
    have hquiet : (∀ event ∈ events, event.Quiet path) →
        Stands path items (handledItems path (eventsOf log))
          (fun k => lastItem path k (eventsOf log)) s' →
        Tracked questions plan path items (eventsOf log ++ events) s' := by
      intro hq hstands
      refine ⟨hplaced, hplan, hheld, h.tally.quiet hq, ?_⟩
      simp only [handledItems_append_quiet hq, lastItem_append_quiet hq]
      exact hstands
    cases hmoves with
    | quiet hq hstands => exact hquiet hq hstands
    | @call frame remaining hrun hcall =>
        cases hcall with
        | quiet hq hstands => exact hquiet hq hstands
        | dispatches hevents hstands =>
            subst hevents
            refine ⟨hplaced, hplan, hheld, h.tally.dispatch hrun, ?_⟩
            rw [handledItems_dispatched, lastItem_append_dispatched]
            exact hstands
        | ends hevents hlast hstands =>
            subst hevents
            obtain ⟨htally, hitems⟩ := h.tally.finish hrun hlast
            refine ⟨hplaced, hplan, hheld, htally, ?_⟩
            simp only [hitems, lastItem_ended]
            exact hstands
  · have hfits := hok.picks d k hc hpath
    rwa [lookup_of_range h.tally.numbers] at hfits

theorem Tracked.of_run
    (hbatch : Place questions plan path (.batch head true items body) outer) (hbody : body.isCall)
    {s₀ : State} (hstart : StartsWith plan records s₀)
    (hrun : Run (WorkRuntime.step questions) (Faithful questions plan path) s₀ log s) :
    Tracked questions plan path items (eventsOf log) s :=
  hrun.invariant (P := fun log s => Tracked questions plan path items (eventsOf log) s)
    (.start hstart) fun _ _ _ _ hok h => h.step hbatch hbody hok

theorem Tracked.completes {input : Input} {events : List Event}
    (hbatch : Place questions plan path (.batch head true items body) outer)
    (h : Tracked questions plan path items events s) (hc : Completes questions path s input) :
    (handledItems path events).Perm items := by
  obtain ⟨frame, rest, hs, hpath, hstack, hdone⟩ := hc
  have hlength : (WorkRuntime.step questions s input).2.stack.length < s.stack.length := by
    rw [hstack, hs]
    exact Nat.lt_succ_self _
  have hmem : frame ∈ s.stack := by simp [hs]
  have hidle : s.control ≠ .idle := fun hidle => by simp [h.placed.idle hidle] at hs
  -- entering a node takes no frame away
  have henter : ∀ d, s.control ≠ .enter d := by
    intro d hd
    rcases step_enter questions input hd with heq | heq
    · rw [heq] at hlength
      cases enterNode_entered questions input.now hd with
      | found _ _ hs' _ _ => exact lt_irrefl _ (hs' ▸ hlength)
      | blocked hs' _ _ _ => exact lt_irrefl _ (hs' ▸ hlength)
      | opened hs' _ _ _ _ _ _ _ =>
          rw [hs', List.length_cons] at hlength
          omega
    · rw [heq] at hlength
      exact lt_irrefl _ hlength
  obtain ⟨-, hturn⟩ := step_turns questions input hs hidle henter
    (node_at hbatch h.placed h.plan hmem hpath) (h.stands.phases frame hmem hpath)
  have hgone : ∀ top : Frame, (WorkRuntime.step questions s input).2.stack ≠ top :: rest := by
    intro top heq
    rw [hstack] at heq
    exact List.cons_ne_self _ _ heq.symm
  cases hturn with
  | leaves _ hno => exact absurd hdone hno
  | completes _ hresume hleft =>
      cases hp : frame.phase with
      | adaptive remaining =>
          rw [hp] at hleft
          have hsettled := h.stands.settled frame rest remaining hs hpath hp (.inr (.inl hresume))
          rw [show remaining = [] from hleft] at hsettled
          exact hsettled.perm h.tally.within
      | _ =>
          rw [hp] at hleft
          have hnil : items = [] := hleft
          have hwithin := h.tally.within
          rw [hnil] at hwithin ⊢
          exact List.perm_nil.mpr (List.subperm_nil.mp hwithin)
  | raises _ heq _ => exact absurd heq (hgone _)
  | stays heq _ => exact absurd heq (hgone _)
  | begins heq => exact absurd heq (hgone _)
  | asks heq _ _ => exact absurd heq (hgone _)
  | picks heq _ _ _ _ => exact absurd heq (hgone _)

end

instance (record : NodeRecord) : Decidable record.Touched :=
  inferInstanceAs (Decidable (_ ∨ _))

/-- `Fits`, computed. -/
def fits (ended last : Option Json) (found : Option NodeRecord) (item : Json) : Bool :=
  match ended with
  | some item' => item' = item && found.any (·.status = .done)
  | none => found.all fun record => record.status ≠ .done && (!record.Touched || last = some item)

/-- A call may be left, or be given to the Agent. -/
def asking : Questions := ⟨fun _ _ => ["next_step", "call_agent"], fun _ => [], fun _ => ""⟩

def atOnce (replies : List Reply) : List Input := replies.map (⟨·, 0⟩)

end WorkRuntime

end MineBot
