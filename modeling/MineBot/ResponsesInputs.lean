import Mathlib
import MineBot.ResponsesKernel

/-!
# What is said to the Responses kernel enters its conversation once

A fact given to `notify_fact` waits in `_facts`, a text given to `steer`
or `run` in `_messages`, in the message task or in `_queued_inputs`, until
a request carries it. `OnceEach` counts both: what was given is what
requests carried and what is still held, each as often as it was given.

The code keeps this only under `Keeps`. `_facts.clear()` after a request
also clears what came in while the request was prepared; a request that is
summarised does not carry its facts; and a run cancelled while it awaits
its reader leaves its message task behind, with a text or to take one.
-/

namespace MineBot

namespace Responses

/-! ## What was given, and what a request carried -/

def Item.userText? : Item → Option String
  | .user text => some text
  | _ => none

def Item.factValue? : Item → Option String
  | .fact value => some value
  | _ => none

/-- The texts of the user items. -/
def userTexts (items : List Item) : List String := items.filterMap Item.userText?

/-- The facts among the items. -/
def factValues (items : List Item) : List String := items.filterMap Item.factValue?

/-- The inputs that a request appends to the history: those that are among
its items. -/
def Request.entered (r : Request) : List Item := r.added.filter (· ∈ r.full)

/-- The fact that one step gives to `notify_fact`. -/
def factsGiven : Act × Output → List String
  | (.notifyFact value, _) => [value]
  | _ => []

def givenFacts (log : Log) : List String := log.flatMap factsGiven

/-- The texts that one step gives to the kernel: those of `run` and `steer`,
and its own reminder. -/
def textsGiven : Act × Output → List String
  | (.run text _ _, o) => (if text = "" then [] else [text]) ++ (if o.nudged then [nudge] else [])
  | (.steer text, _) => [text]
  | (_, o) => if o.nudged then [nudge] else []

def givenTexts (log : Log) : List String := log.flatMap textsGiven

/-- The items that requests appended to the history. -/
def enteredItems (log : Log) : List Item :=
  log.flatMap fun e => (e.2.sent.map Request.entered).getD []

/-- The texts the kernel holds for its next request. -/
def State.heldTexts (s : State) : List String := s.queued ++ s.messages ++ s.message.toList

/-- Facts and texts have entered the history, or are still held, each as
often as it was given. -/
structure OnceEach (log : Log) (s : State) : Prop where
  facts : (givenFacts log).Perm (factValues (enteredItems log) ++ s.facts)
  texts : (givenTexts log).Perm (userTexts (enteredItems log) ++ s.heldTexts)

/-- No run is started while another one is running. -/
def NotTwice (s : State) : Act → Prop
  | .run .. => s.place = .idle
  | _ => True

/-- The steps that lose nothing: a request goes out with every fact that is
held and is not summarised if there is one, a run that awaits its reader is
not cancelled while its message task holds a text, and no message task that
was left behind takes one. -/
def Keeps (s : State) : Act → Prop
  | .request summary =>
      match s.place with
      | .counting _ added full _ =>
          s.facts = factValues added ∧
            (summary ≠ none → (∀ callId ∈ callIds full, callId ∈ outputIds full) → s.facts = [])
      | _ => True
  | .cancel => s.place = .cleaningReader → s.message.toList = []
  | .takeOrphan => s.orphans = 0 ∨ s.messages = []
  | _ => True

/-! ## Collected inputs -/

/-- While a request is prepared, its inputs have the queued texts. -/
def Collected (s : State) : Prop :=
  match s.place with
  | .preparing inputs | .settling inputs _ => userTexts inputs = s.queued
  | .counting _ added full _ => userTexts added = s.queued ∧ added ⊆ full
  | _ => True

theorem userTexts_append (l l' : List Item) : userTexts (l ++ l') = userTexts l ++ userTexts l' :=
  List.filterMap_append

theorem factValues_append (l l' : List Item) :
    factValues (l ++ l') = factValues l ++ factValues l' :=
  List.filterMap_append

/-- Filtering drops nothing that the map sees. -/
theorem filterMap_filter_of_forall {α β : Type} {f : α → Option β} {p : α → Bool} {l : List α}
    (h : ∀ a ∈ l, f a ≠ none → p a = true) : (l.filter p).filterMap f = l.filterMap f := by
  rw [List.filterMap_filter]
  refine List.filterMap_congr fun a ha => ?_
  by_cases hfa : f a = none
  · simp [hfa]
  · rw [if_pos (h a ha hfa)]

theorem userTexts_collect {s : State}
    (h : (s.pending.any fun c => !c.asynchronous && c.task.isNone) = false) :
    userTexts s.collect = s.queued := by
  have hcalls : ∀ cs : List PendingCall,
      userTexts (cs.filterMap fun c => c.task.map (.callOutput c.callId)) = [] := by
    intro cs
    induction cs with
    | nil => rfl
    | cons c cs ih =>
        cases htask : c.task with
        | none => simpa [List.filterMap_cons, htask] using ih
        | some value => simpa [List.filterMap_cons, htask, userTexts, Item.userText?] using ih
  have hfacts : ∀ vs : List String, userTexts (vs.map .fact) = [] := by
    intro vs
    induction vs with
    | nil => rfl
    | cons v vs ih => simpa only [userTexts, Item.userText?, List.map_cons, List.filterMap_cons]
  have husers : ∀ ts : List String, userTexts (ts.map .user) = ts := by
    intro ts
    induction ts with
    | nil => rfl
    | cons t ts ih => simpa [userTexts, Item.userText?] using ih
  rw [State.collect, h, if_neg Bool.false_ne_true, userTexts_append, userTexts_append, hcalls, hfacts,
    husers]
  rfl

theorem any_of_collect_ne_nil {s : State} (h : s.collect ≠ []) :
    (s.pending.any fun c => !c.asynchronous && c.task.isNone) = false := by
  cases hany : s.pending.any fun c => !c.asynchronous && c.task.isNone with
  | false => rfl
  | true => exact absurd (by rw [State.collect, hany]; rfl) h

/-- The message task is made and dropped with the reader. -/
def Paired (s : State) : Prop := s.reader = .absent → s.message = .absent

/-- Where there is no message task. -/
def Tasked (s : State) : Prop :=
  match s.place with
  | .idle | .cleaningMessage | .cleaningFact => s.message = .absent
  | .cleaningReader => True
  | _ => Paired s

/-! ## What the parts of a step leave alone -/

/-- Where facts and texts are held. -/
def State.mail (s : State) : List String × List String × List String × Future String :=
  (s.facts, s.queued, s.messages, s.message)

theorem heldTexts_of_mail {s s' : State} (h : s'.mail = s.mail) : s'.heldTexts = s.heldTexts := by
  simp only [State.mail, Prod.mk.injEq] at h
  rw [State.heldTexts, State.heldTexts, h.2.1, h.2.2.1, h.2.2.2]

theorem facts_of_mail {s s' : State} (h : s'.mail = s.mail) : s'.facts = s.facts :=
  (Prod.mk.inj h).1

theorem mail_cleanup (s : State) : s.cleanup.mail = s.mail := by
  unfold State.cleanup
  split <;> rfl

theorem collected_cleanup (s : State) : Collected s.cleanup := by
  unfold State.cleanup
  split <;> exact trivial

theorem tasked_cleanup {s : State} (h : Paired s) : Tasked s.cleanup := by
  unfold State.cleanup
  split
  · next hreader => exact h hreader
  · exact trivial

theorem mail_interrupt (s : State) : s.interrupt.mail = s.mail := by
  unfold State.interrupt
  split
  · rfl
  · exact mail_cleanup s.afterExit

theorem collected_interrupt (s : State) : Collected s.interrupt := by
  unfold State.interrupt
  split
  · exact trivial
  · exact collected_cleanup s.afterExit

theorem tasked_interrupt {s : State} (h : Paired s) : Tasked s.interrupt := by
  unfold State.interrupt
  split
  · exact h
  · exact tasked_cleanup (s := s.afterExit) h

theorem mail_create (s : State) (inputs : List Item) : (s.create inputs).mail = s.mail := by
  unfold State.create
  split
  · exact mail_interrupt s
  · rfl

theorem collected_create {s : State} {inputs : List Item} (h : userTexts inputs = s.queued) :
    Collected (s.create inputs) := by
  unfold State.create
  split
  · exact collected_interrupt s
  · exact h

theorem tasked_create {s : State} (inputs : List Item) (h : Paired s) :
    Tasked (s.create inputs) := by
  unfold State.create
  split
  · exact tasked_interrupt h
  · exact h

/-- What a turn that began in `s` may do: mail stays where it is, up to the
reminder, and nothing is sent. -/
structure KeepsMail (s : State) (o : Output) (s' : State) : Prop where
  sent : o.sent = none
  facts : s'.facts = s.facts
  queued : s'.queued = s.queued ++ (if o.nudged then [nudge] else [])
  messages : s'.messages = s.messages
  message : s'.message = s.message
  collected : Collected s'
  tasked : Tasked s'

theorem keepsMail_of_mail {s s' : State} {o : Output} (hsent : o.sent = none)
    (hnudged : o.nudged = false) (hmail : s'.mail = s.mail) (hcollected : Collected s')
    (htasked : Tasked s') : KeepsMail s o s' := by
  simp only [State.mail, Prod.mk.injEq] at hmail
  obtain ⟨hfacts, hqueued, hmessages, hmessage⟩ := hmail
  exact ⟨hsent, hfacts, by simp [hqueued, hnudged], hmessages, hmessage, hcollected,
    htasked⟩

theorem keepsMail_resume {t : Turn} (hsent : t.out.sent = none) (hnudged : t.out.nudged = false)
    (hpaired : Paired t.state) (needsWork : Bool) :
    KeepsMail t.state (t.resume needsWork).out (t.resume needsWork).state := by
  unfold Turn.resume
  split
  · exact keepsMail_of_mail hsent hnudged (mail_interrupt _) (collected_interrupt _)
      (tasked_interrupt hpaired)
  · unfold State.loopTop
    split
    · exact keepsMail_of_mail hsent rfl rfl trivial hpaired
    · split
      · next hcollect =>
          exact keepsMail_of_mail hsent rfl (mail_create _ _)
            (collected_create (userTexts_collect (any_of_collect_ne_nil hcollect)))
            (tasked_create _ hpaired)
      · split
        · next hidle =>
            split
            · -- the reminder is the only input, since nothing is pending
              have hmail := mail_create { t.state with queued := t.state.queued ++ [nudge] }
                ({ t.state with queued := t.state.queued ++ [nudge] } : State).collect
              simp only [State.mail, Prod.mk.injEq] at hmail
              obtain ⟨hfacts, hqueued, hmessages, hmessage⟩ := hmail
              have hany : ((({ t.state with queued := t.state.queued ++ [nudge] } : State).pending).any
                  fun c => !c.asynchronous && c.task.isNone) = false := by
                rw [show ({ t.state with queued := t.state.queued ++ [nudge] } : State).pending
                  = t.state.pending from rfl, hidle.1]
                rfl
              exact ⟨hsent, hfacts, hqueued, hmessages, hmessage,
                collected_create (userTexts_collect hany), tasked_create _ hpaired⟩
            · exact keepsMail_of_mail hsent rfl (mail_cleanup _) (collected_cleanup _)
                (tasked_cleanup hpaired)
        · exact keepsMail_of_mail hsent rfl rfl trivial hpaired

theorem observes_mail {t t' : Turn} (h : t.Observes t') :
    t'.out.sent = t.out.sent ∧ t'.out.nudged = t.out.nudged ∧ t'.state.mail = t.state.mail ∧
      t'.state.reader = t.state.reader := by
  obtain ⟨_, _, _, _, _, rfl⟩ := h
  exact ⟨rfl, rfl, rfl, rfl⟩

theorem paired_of_waiting {s : State} (h : s.reader = .waiting) : Paired s :=
  fun habsent => by rw [h] at habsent; cases habsent

theorem readEvent_mail {s : State} (h : Paired s) :
    s.readEvent.out.sent = none ∧ s.readEvent.out.nudged = false ∧
      s.readEvent.state.mail = s.mail ∧ Paired s.readEvent.state := by
  unfold State.readEvent
  split
  case h_2 item _ =>
    obtain ⟨hsent, hnudged, hmail, hreader⟩ := observes_mail (observes_observeItem
      { state := { s with reader := .waiting } } item)
    exact ⟨hsent, hnudged, hmail, paired_of_waiting hreader⟩
  case h_3 kind output _ =>
    obtain ⟨hsent, hnudged, hmail, hreader⟩ := observes_mail (observes_each observes_observeItem
      { state := { s with reader := .waiting, active := false } } output)
    exact ⟨hsent, hnudged, hmail, paired_of_waiting hreader⟩
  case h_6 | h_7 => exact ⟨rfl, rfl, rfl, h⟩
  all_goals exact ⟨rfl, rfl, rfl, paired_of_waiting rfl⟩

/-- The loop wakes in `s`: up to the order of the held texts, what follows
starts from a state with the same mail. -/
theorem keepsMail_wake {s : State} (hpaired : Paired s) (needsWork : Bool) :
    ∃ s₁ : State, s₁.facts = s.facts ∧ s₁.heldTexts.Perm s.heldTexts ∧
      KeepsMail s₁ (s.wake needsWork).out (s.wake needsWork).state := by
  obtain ⟨hsent, hnudged, hmail, hpaired'⟩ := readEvent_mail hpaired
  unfold State.wake
  split
  · exact ⟨_, facts_of_mail hmail, heldTexts_of_mail hmail ▸ .rfl,
      keepsMail_resume hsent hnudged hpaired' needsWork⟩
  · have hread : s.readEvent.state.readMessage.facts = s.facts ∧
        s.readEvent.state.readMessage.heldTexts.Perm s.heldTexts ∧
        Paired s.readEvent.state.readMessage := by
      rw [← facts_of_mail hmail, ← heldTexts_of_mail hmail]
      unfold State.readMessage
      split
      · next text htext =>
          refine ⟨rfl, ?_, fun habsent => ?_⟩
          · simp only [State.heldTexts, htext, Future.toList, List.append_nil, List.append_assoc]
            exact List.perm_append_comm.append_left _
          · rw [hpaired' habsent] at htext
            cases htext
      · exact ⟨rfl, .rfl, hpaired'⟩
    obtain ⟨hfacts, htexts, hpaired''⟩ := hread
    exact ⟨_, hfacts, htexts,
      keepsMail_resume (t := { s.readEvent with state := s.readEvent.state.readMessage })
        hsent hnudged hpaired'' needsWork⟩

/-! ## One step -/

theorem onceEach_snoc {log : Log} {s s' : State} {e : Act × Output} (h : OnceEach log s)
    (hsent : e.2.sent = none) (hfacts : s'.facts = s.facts ++ factsGiven e)
    (htexts : s'.heldTexts.Perm (s.heldTexts ++ textsGiven e)) : OnceEach (log ++ [e]) s' := by
  have hentered : enteredItems (log ++ [e]) = enteredItems log := by
    simp [enteredItems, hsent]
  constructor
  · rw [hentered, hfacts, ← List.append_assoc]
    simpa [givenFacts] using h.facts.append_right (factsGiven e)
  · have hgiven : givenTexts (log ++ [e]) = givenTexts log ++ textsGiven e := by
      simp [givenTexts]
    rw [hentered, hgiven]
    refine (h.texts.append_right _).trans ?_
    rw [List.append_assoc]
    exact htexts.symm.append_left _

/-- The invariant of a run. -/
structure Held (log : Log) (s : State) : Prop where
  once : OnceEach log s
  collected : Collected s
  tasked : Tasked s

theorem Tasked.paired {s : State} (h : Tasked s) (hplace : s.place ≠ .cleaningReader) :
    Paired s := by
  unfold Tasked at h
  split at h
  · exact fun _ => h
  · exact fun _ => h
  · exact fun _ => h
  · next hreader => exact absurd hreader hplace
  · exact h

/-- A turn that keeps the mail keeps the invariant. -/
theorem Held.turn {log : Log} {s s₁ : State} {e : Act × Output} {s' : State} (h : Held log s)
    (hfacts : s₁.facts = s.facts ++ factsGiven e)
    (htexts : (s₁.heldTexts ++ if e.2.nudged then [nudge] else []).Perm (s.heldTexts ++ textsGiven e))
    (hkeeps : KeepsMail s₁ e.2 s') : Held (log ++ [e]) s' := by
  refine ⟨onceEach_snoc h.once hkeeps.sent (hkeeps.facts.trans hfacts) ?_, hkeeps.collected,
    hkeeps.tasked⟩
  refine .trans ?_ htexts
  rw [State.heldTexts, State.heldTexts, hkeeps.queued, hkeeps.messages, hkeeps.message]
  generalize (if e.2.nudged then [nudge] else []) = extra
  simp only [List.append_assoc]
  exact (List.perm_append_comm.trans (by rw [List.append_assoc])).append_left _

/-- So does a step that says nothing and moves texts at most. -/
theorem Held.quiet {log : Log} {s s' : State} {e : Act × Output} (h : Held log s)
    (hsent : e.2.sent = none) (hgiven : factsGiven e = [] ∧ textsGiven e = [])
    (hfacts : s'.facts = s.facts) (htexts : s'.heldTexts.Perm s.heldTexts)
    (hcollected : Collected s') (htasked : Tasked s') : Held (log ++ [e]) s' := by
  refine ⟨onceEach_snoc h.once hsent ?_ ?_, hcollected, htasked⟩
  · rw [hgiven.1, List.append_nil, hfacts]
  · rw [hgiven.2, List.append_nil]
    exact htexts

theorem collected_congr {s s' : State} (h : Collected s) (hplace : s'.place = s.place)
    (hqueued : s'.queued = s.queued) : Collected s' := by
  unfold Collected at h ⊢
  rw [hplace, hqueued]
  exact h

theorem tasked_congr {s s' : State} (h : Tasked s) (hplace : s'.place = s.place)
    (hmessage : s'.message = s.message) (hreader : s.reader ≠ .absent → s'.reader ≠ .absent) :
    Tasked s' := by
  unfold Tasked Paired at h ⊢
  rw [hplace, hmessage]
  split at h
  · exact h
  · exact h
  · exact h
  · exact trivial
  · exact fun habsent => h (Classical.not_not.mp fun hne => hreader hne habsent)

theorem held_run {log : Log} {s : State} (h : Held log s) (hplace : s.place = .idle) (text : String)
    (limit : Option Nat) (needsWork : Bool) :
    Held (log ++ [(.run text limit needsWork, (s.run text limit needsWork).out)])
      (s.run text limit needsWork).state := by
  have hmessage : s.message = .absent := by
    have htasked := h.tasked
    rw [Tasked, hplace] at htasked
    exact htasked
  have hdispatch : Turn.Observes _ (s.redispatch text limit) := observes_each observes_dispatch _ _
  unfold State.run
  generalize s.redispatch text limit = t at hdispatch ⊢
  obtain ⟨hsent, hnudged, hmail, -⟩ := observes_mail hdispatch
  simp only [State.mail, Prod.mk.injEq] at hmail
  obtain ⟨hfacts, hqueued, hmessages, hmessage'⟩ := hmail
  rw [hmessage] at hmessage'
  have hperm : ∀ extra : List String, ((s.queued ++ (if text = "" then [] else [text])) ++ s.messages
      ++ [] ++ extra).Perm (s.heldTexts ++ ((if text = "" then [] else [text]) ++ extra)) := by
    intro extra
    rw [State.heldTexts, hmessage]
    simp only [Future.toList, List.append_nil, List.append_assoc]
    refine List.Perm.append_left _ ?_
    rw [← List.append_assoc, ← List.append_assoc s.messages]
    exact List.perm_append_comm.append_right _
  by_cases hraised : t.raised = true
  · rw [if_pos hraised]
    refine h.turn ?_ ?_ (keepsMail_resume hsent hnudged (fun _ => hmessage') needsWork)
    · rw [hfacts]
      exact (List.append_nil _).symm
    · rw [State.heldTexts, hqueued, hmessages, hmessage']
      exact hperm _
  · rw [if_neg hraised]
    refine h.turn ?_ ?_ (keepsMail_resume (t := { t with
      state := { t.state with reader := .waiting, message := .waiting } }) hsent hnudged
      (paired_of_waiting rfl) needsWork)
    · show t.state.facts = s.facts ++ []
      rw [hfacts, List.append_nil]
    · show (t.state.queued ++ t.state.messages ++ [] ++ _).Perm _
      rw [hqueued, hmessages]
      exact hperm _

theorem held_request {log : Log} {s : State} (h : Held log s) (summary : Option String)
    (hkeeps : Keeps s (.request summary)) :
    Held (log ++ [(.request summary, (s.request summary).1)]) (s.request summary).2 := by
  unfold State.request
  split
  · next inputs added full snapshot hplace =>
      simp only [Keeps, hplace] at hkeeps
      obtain ⟨hfacts, hsummary⟩ := hkeeps
      have hcollected := h.collected
      simp only [Collected, hplace] at hcollected
      obtain ⟨htexts, hsub⟩ := hcollected
      have hpaired := h.tasked.paired (by rw [hplace]; exact nofun)
      refine ⟨⟨?_, ?_⟩, trivial, hpaired⟩
      · have hentered : factValues (added.filter (· ∈ (summary.map (summarize · full)).getD full))
            = factValues added := by
          cases summary with
          | none => rw [List.filter_eq_self.mpr (by simpa using fun i hi => hsub hi)]
          | some text =>
              rw [Option.map_some, Option.getD_some]
              by_cases hall : ∀ callId ∈ callIds full, callId ∈ outputIds full
              · have hnone : factValues added = [] := hfacts ▸ hsummary nofun hall
                rw [hnone]
                exact List.eq_nil_of_subset_nil (hnone ▸ (List.filter_sublist.filterMap _).subset)
              · rw [summarize, if_neg (by simpa using hall),
                  List.filter_eq_self.mpr (by simpa using fun i hi => hsub hi)]
        have hgiven := h.once.facts
        rw [hfacts] at hgiven
        simpa [givenFacts, enteredItems, factsGiven, Request.entered, factValues_append, hentered]
          using hgiven
      · have hentered : userTexts (added.filter (· ∈ (summary.map (summarize · full)).getD full))
            = userTexts added := by
          refine filterMap_filter_of_forall fun i hi htext => ?_
          cases summary with
          | none => simpa using hsub hi
          | some text =>
              rw [Option.map_some, Option.getD_some, summarize]
              split
              · cases i with
                | user text => simp [hsub hi, Item.isUser]
                | _ => exact absurd rfl htext
              · simpa using hsub hi
        have hgiven := h.once.texts
        rw [State.heldTexts, ← htexts] at hgiven
        simpa [givenTexts, enteredItems, textsGiven, Request.entered, userTexts_append, hentered,
          State.heldTexts] using hgiven
  · exact h.quiet rfl ⟨rfl, rfl⟩ rfl .rfl h.collected h.tasked

/-- An interruption keeps the invariant, wherever the loop stood. -/
theorem Held.interrupt {log : Log} {s : State} {e : Act × Output} (h : Held log s)
    (hsent : e.2.sent = none) (hgiven : factsGiven e = [] ∧ textsGiven e = [])
    (hplace : s.place ≠ .cleaningReader) : Held (log ++ [e]) s.interrupt :=
  h.quiet hsent hgiven (facts_of_mail (mail_interrupt s))
    (heldTexts_of_mail (mail_interrupt s) ▸ .rfl) (collected_interrupt s)
    (tasked_interrupt (h.tasked.paired hplace))

theorem userTexts_added (s : State) (inputs : List Item) (snapshot : String) :
    userTexts (s.added inputs snapshot) = userTexts inputs := by
  have hsnapshot : userTexts (if snapshot ≠ "" ∧ s.lastSnapshot ≠ some snapshot
      then [.snapshot snapshot] else []) = [] := by
    split <;> rfl
  rw [State.added, userTexts_append, hsnapshot, List.append_nil]
  refine filterMap_filter_of_forall fun i _ htext => ?_
  cases i with
  | user text => rfl
  | _ => exact absurd rfl htext

theorem held_settle {log : Log} {s : State} (h : Held log s) :
    Held (log ++ [(.settle, ({} : Output))]) s.settle := by
  unfold State.settle
  split
  · next inputs snapshot hplace =>
      have hplace' : s.place ≠ .cleaningReader := by rw [hplace]; exact nofun
      split
      · exact h.interrupt rfl ⟨rfl, rfl⟩ hplace'
      · have hcollected := h.collected
        simp only [Collected, hplace] at hcollected
        exact h.quiet rfl ⟨rfl, rfl⟩ rfl .rfl
          ⟨(userTexts_added s inputs snapshot).trans hcollected, List.subset_append_right _ _⟩
          (h.tasked.paired hplace')
  · exact h.quiet rfl ⟨rfl, rfl⟩ rfl .rfl h.collected h.tasked

/-- The stream task has no part in facts and texts. -/
theorem mail_receive (s : State) (e : Event) :
    (s.receive e).mail = s.mail ∧ (s.receive e).place = s.place ∧
      (s.receive e).reader = s.reader := by
  unfold State.receive
  split
  · exact ⟨rfl, rfl, rfl⟩
  · next stream _ =>
    split
    · exact ⟨rfl, rfl, rfl⟩
    · split
      case h_2 kind output =>
        obtain ⟨_, _, h⟩ := mergeOutput_frame s stream.outputStart kind output
        rw [h]
        exact ⟨rfl, rfl, rfl⟩
      all_goals exact ⟨rfl, rfl, rfl⟩

theorem mail_endStream (s : State) :
    s.endStream.mail = s.mail ∧ s.endStream.place = s.place ∧ s.endStream.reader = s.reader := by
  unfold State.endStream
  split
  · exact ⟨rfl, rfl, rfl⟩
  · split <;> exact ⟨rfl, rfl, rfl⟩

/-- A step of another party that leaves place, mail and reader. -/
theorem Held.elsewhere {log : Log} {s s' : State} {e : Act × Output} (h : Held log s)
    (hsent : e.2.sent = none) (hgiven : factsGiven e = [] ∧ textsGiven e = [])
    (hsame : s'.mail = s.mail ∧ s'.place = s.place ∧ s'.reader = s.reader) :
    Held (log ++ [e]) s' := by
  obtain ⟨hmail, hplace, hreader⟩ := hsame
  have hparts := hmail
  simp only [State.mail, Prod.mk.injEq] at hparts
  exact h.quiet hsent hgiven (facts_of_mail hmail) (heldTexts_of_mail hmail ▸ .rfl)
    (collected_congr h.collected hplace hparts.2.1)
    (tasked_congr h.tasked hplace hparts.2.2.2 (by rw [hreader]; exact id))

theorem held_takeMessage {log : Log} {s : State} (h : Held log s) :
    Held (log ++ [(.takeMessage, ({} : Output))]) s.takeMessage := by
  unfold State.takeMessage
  split
  · next text texts hmessage hmessages =>
      refine h.quiet rfl ⟨rfl, rfl⟩ rfl ?_ (collected_congr h.collected rfl rfl) ?_
      · simp only [State.heldTexts, hmessage, hmessages, Future.toList, List.append_nil]
        rw [List.append_assoc]
        exact (List.perm_append_singleton text texts).append_left _
      · -- a task that waits is not absent
        have htasked := h.tasked
        unfold Tasked Paired at htasked ⊢
        rw [hmessage] at htasked
        dsimp only
        split at htasked
        case h_4 => exact trivial
        case h_5 => exact fun habsent => nomatch htasked habsent
        all_goals cases htasked
  · exact h.quiet rfl ⟨rfl, rfl⟩ rfl .rfl h.collected h.tasked

theorem held_takeEvent {log : Log} {s : State} (h : Held log s) :
    Held (log ++ [(.takeEvent, ({} : Output))]) s.takeEvent := by
  unfold State.takeEvent
  split
  · exact h.quiet rfl ⟨rfl, rfl⟩ rfl .rfl (collected_congr h.collected rfl rfl)
      (tasked_congr h.tasked rfl rfl fun _ => nofun)
  · exact h.quiet rfl ⟨rfl, rfl⟩ rfl .rfl h.collected h.tasked

theorem held_proceed {log : Log} {s : State} (h : Held log s) :
    Held (log ++ [(.proceed, ({} : Output))]) s.proceed := by
  have htasked := h.tasked
  unfold State.proceed
  split
  · next hplace =>
      have hpaired : Paired s.afterExit := h.tasked.paired (by rw [hplace]; exact nofun)
      have hmail : s.afterExit.cleanup.mail = s.mail := mail_cleanup s.afterExit
      exact h.quiet rfl ⟨rfl, rfl⟩ (facts_of_mail hmail) (heldTexts_of_mail hmail ▸ .rfl)
        (collected_cleanup _) (tasked_cleanup hpaired)
  · refine h.quiet rfl ⟨rfl, rfl⟩ rfl ?_ trivial rfl
    simp only [State.heldTexts, Future.toList, List.append_nil, List.append_assoc]
    exact List.perm_append_comm.append_left _
  · next hplace =>
      rw [Tasked, hplace] at htasked
      exact h.quiet rfl ⟨rfl, rfl⟩ rfl .rfl trivial htasked
  · next hplace =>
      rw [Tasked, hplace] at htasked
      exact h.quiet rfl ⟨rfl, rfl⟩ rfl .rfl trivial htasked
  · exact h.quiet rfl ⟨rfl, rfl⟩ rfl .rfl h.collected h.tasked

theorem held_cancel {log : Log} {s : State} (h : Held log s) (hkeeps : Keeps s .cancel) :
    Held (log ++ [(.cancel, ({} : Output))]) s.cancel := by
  have htasked := h.tasked
  unfold State.cancel
  split
  case h_1 => exact h.quiet rfl ⟨rfl, rfl⟩ rfl .rfl h.collected h.tasked
  case h_2 hplace | h_3 hplace | h_4 hplace | h_5 hplace =>
    exact h.interrupt rfl ⟨rfl, rfl⟩ (by rw [hplace]; exact nofun)
  case h_6 hplace =>
    exact h.quiet rfl ⟨rfl, rfl⟩ (facts_of_mail (mail_cleanup s))
      (heldTexts_of_mail (mail_cleanup s) ▸ .rfl) (collected_cleanup s)
      (tasked_cleanup (h.tasked.paired (by rw [hplace]; exact nofun)))
  case h_7 hplace =>
    have hnone := hkeeps hplace
    refine h.quiet rfl ⟨rfl, rfl⟩ rfl ?_ trivial rfl
    rw [State.heldTexts, State.heldTexts, hnone]
    exact .rfl
  case h_8 hplace | h_9 hplace =>
    rw [Tasked, hplace] at htasked
    exact h.quiet rfl ⟨rfl, rfl⟩ rfl .rfl trivial htasked

/-- One step keeps the invariant. -/
theorem held_step {log : Log} {s : State} (h : Held log s) {a : Act} (htwice : NotTwice s a)
    (hkeeps : Keeps s a) : Held (log ++ [(a, (step s a).1)]) (step s a).2 := by
  cases a with
  | run text limit needsWork =>
      have hplace : s.place = .idle := htwice
      rw [step, if_pos hplace]
      exact held_run h hplace text limit needsWork
  | steer text =>
      refine ⟨onceEach_snoc h.once rfl (List.append_nil _).symm ?_,
        collected_congr h.collected rfl rfl, tasked_congr h.tasked rfl rfl id⟩
      show (s.queued ++ (s.messages ++ [text]) ++ s.message.toList).Perm (s.heldTexts ++ [text])
      simp only [State.heldTexts, List.append_assoc]
      exact (List.perm_append_comm.append_left _).append_left _
  | notifyFact value =>
      exact ⟨onceEach_snoc h.once rfl rfl (by rw [show textsGiven _ = [] from rfl, List.append_nil]; exact .rfl),
        collected_congr h.collected rfl rfl, tasked_congr h.tasked rfl rfl id⟩
  | toolDone => exact h.elsewhere rfl ⟨rfl, rfl⟩ ⟨rfl, rfl, rfl⟩
  | takeMessage => exact held_takeMessage h
  | takeOrphan =>
      have hsame : s.takeOrphan = s := by
        unfold State.takeOrphan
        rcases hkeeps with horphans | hmessages
        · rw [horphans]
        · rw [hmessages]
          split
          · next heq => cases heq
          · rfl
      exact h.quiet rfl ⟨rfl, rfl⟩ (by rw [step, hsame]) (by rw [step, hsame]) (by rw [step, hsame]; exact h.collected)
        (by rw [step, hsame]; exact h.tasked)
  | takeEvent => exact held_takeEvent h
  | prepare context =>
      rw [step]
      unfold State.prepare
      split
      · next inputs hplace =>
          have hcollected := h.collected
          simp only [Collected, hplace] at hcollected
          exact h.quiet rfl ⟨rfl, rfl⟩ rfl .rfl hcollected
            (h.tasked.paired (by rw [hplace]; exact nofun))
      · exact h.quiet rfl ⟨rfl, rfl⟩ rfl .rfl h.collected h.tasked
  | settle => exact held_settle h
  | request summary => exact held_request h summary hkeeps
  | fail =>
      rw [step]
      unfold State.fail
      split
      case h_1 hplace | h_2 hplace | h_3 hplace =>
        exact h.interrupt rfl ⟨rfl, rfl⟩ (by rw [hplace]; exact nofun)
      case h_4 => exact h.quiet rfl ⟨rfl, rfl⟩ rfl .rfl h.collected h.tasked
  | wake needsWork =>
      rw [step]
      split
      · next hplace =>
          obtain ⟨s₁, hfacts, htexts, hkeep⟩ := keepsMail_wake
            (h.tasked.paired (by rw [hplace]; exact nofun)) needsWork
          exact h.turn (hfacts.trans (List.append_nil _).symm) (htexts.append_right _) hkeep
      · exact h.quiet rfl ⟨rfl, rfl⟩ rfl .rfl h.collected h.tasked
  | receive e => exact h.elsewhere rfl ⟨rfl, rfl⟩ (mail_receive s e)
  | endStream => exact h.elsewhere rfl ⟨rfl, rfl⟩ (mail_endStream s)
  | proceed => exact held_proceed h
  | cancel => exact held_cancel h hkeeps

/-! ## Every run -/

/-- A run cancelled twice leaves its message task behind: the next text
goes to a task that nobody reads. -/
theorem inputs_lose_text : ∃ log s, Run step (fun _ s a => NotTwice s a) {} log s ∧
    givenTexts log = ["go", "stop"] ∧ enteredItems log = [] ∧ s.heldTexts = ["go"] := by
  have hrun := ((((((.start : Run step (fun _ s a => NotTwice s a) {} [] {})).next (Act.run "go" none false) rfl).next Act.cancel trivial).next Act.cancel trivial).next
    (Act.steer "stop") trivial).next Act.takeOrphan trivial
  exact ⟨_, _, hrun, by decide, by decide, by decide⟩

end Responses

end MineBot
