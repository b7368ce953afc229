import MineBot.HighWater
import MineBot.History
import MineBot.JavaBodyProtocol

/-!
# The per-bot event sequence

Runs of one `JavaBodyProtocol`: requests built, cursors seeded and
frames fed, in any order and for any bots. Seen from one bot, every
frame moves that bot's high-water mark by accepting the events it
carries and, for a `RESUME_EVENTS_RESULT` with an `event_gap`, by one
concession (`feed_advance`). The accounting of `HighWater` then carries
over to whole runs.

A concession is the one way to leave a hole. `_sequence_event` derives
its gaps from the mark, so they start at the first open number;
`_ingest_replay` takes the server's bounds as they come and raises the
mark to `to` also when `from` lies above the first open number. The
numbers in between are then neither emitted nor reported.
-/

namespace MineBot

open HighWater

namespace JavaBodyProtocol

/-! ## One bot's view of a frame -/

/-- What an item tells about one bot's sequence. -/
def mark? (bot : String) : Item → Option (Mark BotEvent)
  | .event e => if e.bot = bot then some (.delivered e) else none
  | .gap g => if g.bot = bot then some (.missing g.fromSeq g.toSeq) else none
  | _ => none

def marks (bot : String) (items : List Item) : List (Mark BotEvent) :=
  items.filterMap (mark? bot)

@[simp] theorem marks_nil (bot : String) : marks bot [] = [] := rfl

@[simp] theorem marks_append (bot : String) (xs ys : List Item) :
    marks bot (xs ++ ys) = marks bot xs ++ marks bot ys :=
  List.filterMap_append

@[simp] theorem marks_response (bot : String) (r : Response) (items : List Item) :
    marks bot (.response r :: items) = marks bot items := rfl

/-- `_sequence_event` accepts the event at its bot's mark ... -/
theorem sequenceEvent_self (p : JavaBodyProtocol) (e : BotEvent) :
    marks e.bot (p.sequenceEvent e).1 = (accept BotEvent.seq (p.lastSeq e.bot) e).1
      ∧ (p.sequenceEvent e).2.lastSeq e.bot
        = (accept BotEvent.seq (p.lastSeq e.bot) e).2 := by
  unfold sequenceEvent accept
  by_cases hdup : e.seq ≤ p.lastSeq e.bot
  · simp [hdup]
  · by_cases hgap : p.lastSeq e.bot + 1 < e.seq <;>
      simp [hdup, hgap, marks, mark?]

/-- ... and leaves every other bot alone. -/
theorem sequenceEvent_of_ne (p : JavaBodyProtocol) {e : BotEvent} {bot : String}
    (h : e.bot ≠ bot) :
    marks bot (p.sequenceEvent e).1 = []
      ∧ (p.sequenceEvent e).2.lastSeq bot = p.lastSeq bot := by
  unfold sequenceEvent
  by_cases hdup : e.seq ≤ p.lastSeq e.bot
  · simp [hdup]
  · by_cases hgap : p.lastSeq e.bot + 1 < e.seq <;>
      simp [hdup, hgap, marks, mark?, h, lastSeq_setLastSeq_of_ne p (Ne.symm h)]

theorem sequenceEvent_advance (C : Int → Int → Int → Prop) (p : JavaBodyProtocol)
    (e : BotEvent) (bot : String) :
    Advance BotEvent.seq C (p.lastSeq bot) (marks bot (p.sequenceEvent e).1)
      ((p.sequenceEvent e).2.lastSeq bot) := by
  by_cases h : e.bot = bot
  · subst h
    obtain ⟨hmarks, hlast⟩ := p.sequenceEvent_self e
    rw [hmarks, hlast, ← List.append_nil (accept _ _ _).1]
    exact .accept e (.done _)
  · obtain ⟨hmarks, hlast⟩ := p.sequenceEvent_of_ne h
    rw [hmarks, hlast]
    exact .done _

theorem sequenceReplayed_advance (encodedBytes : JsonObject → Nat)
    (C : Int → Int → Int → Prop) (bot : String) :
    ∀ (raws : List Json) (p p' : JavaBodyProtocol) (items : List Item),
      p.sequenceReplayed encodedBytes raws = (.ok items, p') →
      Advance BotEvent.seq C (p.lastSeq bot) (marks bot items) (p'.lastSeq bot)
  | [], p, p', items, h => by
      obtain ⟨hitems, rfl⟩ := Prod.mk.inj h
      cases hitems
      exact .done _
  | raw :: rest, p, p', items, h => by
      cases raw with
      | obj raw =>
          simp only [sequenceReplayed] at h
          split at h
          · cases h
          · next event hparse =>
              split at h
              · cases h
              · next more p₂ hmore =>
                  cases h
                  rw [marks_append]
                  exact (p.sequenceEvent_advance C event bot).append
                    (sequenceReplayed_advance encodedBytes C bot rest _ _ _ hmore)
      | _ => simp [sequenceReplayed] at h

/-- The gap a frame concedes, if it is a `RESUME_EVENTS_RESULT` that
reports one. -/
def concession? : Json → Option EventGap
  | .obj message =>
      if str? message "type" = some "RESUME_EVENTS_RESULT" then
        match replayGap? message with
        | .ok gap => gap
        | .error _ => none
      else none
  | _ => none

/-- The concessions `frame` may make for `bot`, met at `p`. -/
def Concedes (p : JavaBodyProtocol) (frame : Json) (bot : String) (m a b : Int) :
    Prop :=
  m = p.lastSeq bot ∧ concession? frame = some ⟨bot, a, b⟩

theorem ingestReplay_advance (encodedBytes : JsonObject → Nat)
    {p p' : JavaBodyProtocol} {message : JsonObject} {items : List Item}
    (h : p.ingestReplay encodedBytes message = (.ok items, p')) (bot : String) :
    Advance BotEvent.seq
      (fun m a b => m = p.lastSeq bot ∧ replayGap? message = .ok (some ⟨bot, a, b⟩))
      (p.lastSeq bot) (marks bot items) (p'.lastSeq bot) := by
  simp only [ingestReplay] at h
  split at h
  · cases h
  · next gap hgap =>
      split at h
      · next events hevents =>
          split at h
          · cases h
          · next more p₂ hmore =>
              cases h
              have hrest := sequenceReplayed_advance encodedBytes
                (fun m a b => m = p.lastSeq bot
                  ∧ replayGap? message = .ok (some ⟨bot, a, b⟩)) bot _ _ _ _ hmore
              rw [marks_append]
              cases gap with
              | none => exact hrest
              | some g =>
                  obtain ⟨gbot, a, b⟩ := g
                  by_cases hbot : gbot = bot
                  · subst hbot
                    simp only [takeGap, lastSeq_setLastSeq_self] at hrest ⊢
                    simp only [marks, List.filterMap_cons, mark?, if_true,
                      List.filterMap_nil, List.singleton_append]
                    exact .concede a b ⟨rfl, hgap⟩ hrest
                  · simp only [takeGap,
                      lastSeq_setLastSeq_of_ne p (Ne.symm hbot)] at hrest ⊢
                    simpa [marks, mark?, hbot] using hrest
      · cases h

@[simp] theorem lastSeq_popPending (p : JavaBodyProtocol) (requestId bot : String) :
    (p.popPending requestId).2.lastSeq bot = p.lastSeq bot := rfl

theorem acceptHello_lastSeq {p p' : JavaBodyProtocol} {message : JsonObject}
    (h : p.acceptHello message = .ok p') (bot : String) :
    p'.lastSeq bot = p.lastSeq bot := by
  simp only [acceptHello, bind, Except.bind, pure, Except.pure, throw,
    throwThe, MonadExceptOf.throw] at h
  repeat' split at h
  all_goals cases h <;> rfl

theorem lastSeq_request (p : JavaBodyProtocol) (requestType : String)
    (body : JsonObject) (bot : String) :
    (p.request requestType body).2.lastSeq bot = p.lastSeq bot := rfl

theorem feedError_lastSeq (p : JavaBodyProtocol) (message : JsonObject)
    (bot : String) : (p.feedError message).2.lastSeq bot = p.lastSeq bot := by
  unfold feedError
  cases str? message "request_id" <;> cases str? message "code" <;> rfl

/-! ## What a frame can do -/

/-- The ways an accepted frame can go: a live event is sequenced, a
replay is ingested, anything else leaves every bot's sequence alone. -/
inductive Fed (encodedBytes : JsonObject → Nat) (p : JavaBodyProtocol)
    (message : JsonObject) : List Item → JavaBodyProtocol → Prop where
  | event (event : BotEvent) :
      str? message "channel" = some channelName →
      str? message "type" = some "EVENT" →
      parseEvent encodedBytes message = .ok event →
      Fed encodedBytes p message (p.sequenceEvent event).1 (p.sequenceEvent event).2
  | replay (requestId : String) (response : Response) (items : List Item)
      (p' : JavaBodyProtocol) :
      str? message "type" = some "RESUME_EVENTS_RESULT" →
      (p.popPending requestId).2.ingestReplay encodedBytes message = (.ok items, p') →
      Fed encodedBytes p message (.response response :: items) p'
  | quiet (items : List Item) (p' : JavaBodyProtocol) :
      str? message "type" ≠ some "EVENT" →
      str? message "type" ≠ some "RESUME_EVENTS_RESULT" →
      (∀ bot, marks bot items = []) → (∀ bot, p'.lastSeq bot = p.lastSeq bot) →
      Fed encodedBytes p message items p'

section

variable {encodedBytes : JsonObject → Nat} {p p' : JavaBodyProtocol}
variable {message : JsonObject} {items : List Item}

theorem fed_of_feedError (htype : str? message "type" = some "ERROR")
    (h : ((p.feedError message).1.map fun e => [Item.error e], (p.feedError message).2)
      = (.ok items, p')) : Fed encodedBytes p message items p' := by
  obtain ⟨hitems, rfl⟩ := Prod.mk.inj h
  refine .quiet _ _ (by rw [htype]; decide) (by rw [htype]; decide) (fun bot => ?_)
    (feedError_lastSeq p message)
  cases he : (p.feedError message).1 with
  | error e => rw [he] at hitems; cases hitems
  | ok e => rw [he] at hitems; cases hitems; rfl

theorem fed_of_feedResponse (hevent : str? message "type" ≠ some "EVENT")
    (h : p.feedResponse encodedBytes message = (.ok items, p')) :
    Fed encodedBytes p message items p' := by
  simp only [feedResponse] at h
  split at h
  · next frameType requestId htype _ =>
      split at h
      · cases h
      · next requestType p₁ hpop =>
          obtain ⟨-, rfl⟩ := Prod.mk.inj hpop
          split at h
          · cases h
          · split at h
            · cases h
            · split at h
              · next hhello =>
                  split at h
                  · cases h
                  · next p₂ hello =>
                      cases h
                      subst hhello
                      exact .quiet _ _ hevent (by rw [htype]; decide) (fun bot => rfl)
                        fun bot => (acceptHello_lastSeq hello bot).trans
                          (lastSeq_popPending p requestId bot)
              · split at h
                · next hreplay =>
                    split at h
                    · cases h
                    · next more p₂ hmore =>
                        cases h
                        exact .replay requestId _ more _ (by rw [htype, hreplay]) hmore
                · next hreplay =>
                    cases h
                    exact .quiet _ _ hevent
                      (by rw [htype]; exact fun h => hreplay (Option.some.inj h))
                      (fun bot => rfl) (fun bot => rfl)
  · cases h

/-- **What one frame can do.** -/
theorem fed_of_feed {frame : Json}
    (h : p.feed encodedBytes frame = (.ok items, p')) :
    ∃ message, frame = .obj message ∧ Fed encodedBytes p message items p' := by
  cases frame with
  | obj message =>
      refine ⟨message, rfl, ?_⟩
      simp only [feed, feedObject] at h
      split at h
      · split at h
        · cases h
        · next htype => exact fed_of_feedError (Decidable.not_not.mp htype) h
      · split at h
        · cases h
        · next hchannel =>
            split at h
            · next htype =>
                split at h
                · cases h
                · next event hparse =>
                    cases h
                    exact .event event (Decidable.not_not.mp hchannel) htype hparse
            · next htype => exact fed_of_feedError htype h
            · next htype =>
                obtain ⟨hitems, rfl⟩ := Prod.mk.inj h
                refine .quiet _ _ (by rw [htype]; decide) (by rw [htype]; decide)
                  (fun bot => ?_) (fun bot => rfl)
                cases hp : feedProposal message with
                | error e => rw [hp] at hitems; cases hitems
                | ok e => rw [hp] at hitems; cases hitems; rfl
            · next htype _ _ => exact fed_of_feedResponse htype h
  | _ => simp [feed] at h

end

/-- **What one frame does to one bot's sequence.** -/
theorem feed_advance (encodedBytes : JsonObject → Nat)
    {p p' : JavaBodyProtocol} {frame : Json} {items : List Item}
    (h : p.feed encodedBytes frame = (.ok items, p')) (bot : String) :
    Advance BotEvent.seq (Concedes p frame bot)
      (p.lastSeq bot) (marks bot items) (p'.lastSeq bot) := by
  obtain ⟨message, rfl, hfed⟩ := fed_of_feed h
  cases hfed with
  | event event _ _ _ => exact p.sequenceEvent_advance _ event bot
  | replay requestId response items _ htype hmore =>
      rw [marks_response]
      refine (ingestReplay_advance encodedBytes hmore bot).mono
        fun m a b _ hC => ⟨hC.1, ?_⟩
      simp [concession?, htype, hC.2]
  | quiet _ _ _ _ hmarks hlast =>
      rw [hmarks, hlast]
      exact .done _

/-! ## Runs -/

/-- What is done to a protocol: any request built, a cursor seeded, a
frame fed. -/
inductive WireInput where
  | request (requestType : String) (body : JsonObject)
  | seed (bot : String) (seq : Int)
  | frame (message : Json)

inductive WireOutput where
  | sent (message : JsonObject)
  | seeded
  | fed (result : Except FeedError (List Item))

abbrev WireLog := List (WireInput × WireOutput)

def step (encodedBytes : JsonObject → Nat) (p : JavaBodyProtocol) :
    WireInput → WireOutput × JavaBodyProtocol
  | .request requestType body =>
      let (message, p₁) := p.request requestType body
      (.sent message, p₁)
  | .seed bot seq => (.seeded, p.seedLastSeq bot seq)
  | .frame frame =>
      let (result, p₁) := p.feed encodedBytes frame
      (.fed result, p₁)

/-- The frame, if it is one, does not violate the protocol. -/
def Accepted (encodedBytes : JsonObject → Nat) (p : JavaBodyProtocol) (i : WireInput) :
    Prop :=
  ∀ frame, i = .frame frame → ∃ items, (p.feed encodedBytes frame).1 = .ok items

/-- Runs of a fresh protocol on accepted frames, each step also meeting
`cond`. -/
abbrev WireRun (encodedBytes : JsonObject → Nat)
    (cond : JavaBodyProtocol → WireInput → Prop) : WireLog → JavaBodyProtocol → Prop :=
  Run (step encodedBytes) (fun _ p i => Accepted encodedBytes p i ∧ cond p i) fresh

/-- The items of an entry. -/
def entryItems : WireInput × WireOutput → List Item
  | (_, .fed (.ok items)) => items
  | _ => []

/-- Everything a run handed to its consumer about `bot`. -/
def logMarks (bot : String) (log : WireLog) : List (Mark BotEvent) :=
  log.flatMap fun entry => marks bot (entryItems entry)

/-- The events emitted for `bot`. -/
def emitted (bot : String) (log : WireLog) : List BotEvent :=
  items (logMarks bot log)

/-- The highest value seeded for `bot`, 0 if none. -/
def seeded (bot : String) (log : WireLog) : Int :=
  log.foldl (fun s entry => match entry.1 with
    | .seed bot' seq => if bot' = bot then max s seq else s
    | _ => s) 0

theorem logMarks_append (bot : String) (log log' : WireLog) :
    logMarks bot (log ++ log') = logMarks bot log ++ logMarks bot log' :=
  List.flatMap_append

theorem logMarks_eq (bot : String) (log : WireLog) :
    logMarks bot log = marks bot (log.flatMap entryItems) := by
  induction log with
  | nil => rfl
  | cons entry log ih =>
      rw [List.flatMap_cons, marks_append, ← ih]
      rfl

@[simp] theorem logMarks_singleton (bot : String) (entry : WireInput × WireOutput) :
    logMarks bot [entry] = marks bot (entryItems entry) :=
  List.flatMap_singleton ..

theorem emitted_append (bot : String) (log log' : WireLog) :
    emitted bot (log ++ log') = emitted bot log ++ emitted bot log' := by
  simp [emitted, logMarks_append]

theorem seeded_append_singleton (bot : String) (log : WireLog)
    (entry : WireInput × WireOutput) :
    seeded bot (log ++ [entry]) = match entry.1 with
      | .seed bot' seq => if bot' = bot then max (seeded bot log) seq else seeded bot log
      | _ => seeded bot log := by
  rw [seeded, List.foldl_append]
  rfl

theorem seedLastSeq_lastSeq (p : JavaBodyProtocol) (bot bot' : String) (seq : Int) :
    (p.seedLastSeq bot seq).lastSeq bot'
      = if bot = bot' then max (p.lastSeq bot') (max 0 seq) else p.lastSeq bot' := by
  split
  · next h => subst h; simp [seedLastSeq]
  · next h => exact lastSeq_setLastSeq_of_ne p (Ne.symm h) _

section

variable {encodedBytes : JsonObject → Nat} {p : JavaBodyProtocol}

/-- An accepted frame advances every bot's mark; the other inputs emit
nothing. -/
theorem step_frame_advance {frame : Json} (hok : Accepted encodedBytes p (.frame frame))
    (bot : String) :
    Advance BotEvent.seq (Concedes p frame bot) (p.lastSeq bot)
      (marks bot (entryItems (.frame frame, (p.step encodedBytes (.frame frame)).1)))
      ((p.step encodedBytes (.frame frame)).2.lastSeq bot) := by
  obtain ⟨items, hitems⟩ := hok frame rfl
  have hfeed : p.feed encodedBytes frame = (.ok items, (p.feed encodedBytes frame).2) :=
    Prod.ext hitems rfl
  simp only [step, entryItems, hitems]
  exact feed_advance encodedBytes hfeed bot

/-- No step lowers a bot's mark. -/
theorem step_lastSeq_le {i : WireInput} (hok : Accepted encodedBytes p i) (bot : String) :
    p.lastSeq bot ≤ (p.step encodedBytes i).2.lastSeq bot := by
  cases i with
  | request => exact le_rfl
  | seed bot' seq =>
      simp only [step, seedLastSeq_lastSeq]
      split
      · exact le_max_left _ _
      · exact le_rfl
  | frame frame => exact (step_frame_advance hok bot).mark_le

/-- What is known of one bot wherever a run stands. -/
structure Sound (bot : String) (log : WireLog) (p : JavaBodyProtocol) : Prop where
  mark_nonneg : 0 ≤ p.lastSeq bot
  ledger : Ledger BotEvent.seq (seeded bot log) (logMarks bot log) (p.lastSeq bot)

end

/-! ## No silent hole -/

/-- A reported gap starts no later than the first number still open, or
reaches no further than the mark. -/
def GapMeetsMark (p : JavaBodyProtocol) (i : WireInput) : Prop :=
  ∀ frame g, i = .frame frame → concession? frame = some g →
    g.fromSeq ≤ p.lastSeq g.bot + 1 ∨ g.toSeq ≤ p.lastSeq g.bot

/-- Every number between the seed and the mark was emitted exactly once
or lies in an emitted gap, and emission is in increasing order. -/
structure NoSilentHole (bot : String) (log : WireLog) (p : JavaBodyProtocol) : Prop where
  accounted : ∀ n, seeded bot log < n → n ≤ p.lastSeq bot →
    (emitted bot log).countP (fun e => e.seq = n) = 1
      ∨ ∃ g, Item.gap g ∈ log.flatMap entryItems ∧ g.bot = bot
          ∧ g.fromSeq ≤ n ∧ n ≤ g.toSeq
  ascending : (emitted bot log).Pairwise fun e e' => e.seq < e'.seq

theorem mem_logMarks_missing {bot : String} {log : WireLog} {a b : Int} :
    Mark.missing a b ∈ logMarks bot log ↔
      Item.gap ⟨bot, a, b⟩ ∈ log.flatMap entryItems := by
  simp only [logMarks, marks, List.mem_flatMap, List.mem_filterMap]
  constructor
  · rintro ⟨entry, hentry, item, hitem, hmark⟩
    refine ⟨entry, hentry, ?_⟩
    cases item with
    | gap g =>
        obtain ⟨gbot, a', b'⟩ := g
        simp only [mark?] at hmark
        split at hmark
        · next h => cases h; cases hmark; exact hitem
        · cases hmark
    | event e => simp only [mark?] at hmark; split at hmark <;> cases hmark
    | _ => cases hmark
  · rintro ⟨entry, hentry, hitem⟩
    exact ⟨entry, hentry, _, hitem, by simp [mark?]⟩

theorem sound_of_run {encodedBytes : JsonObject → Nat} {log : WireLog}
    {p : JavaBodyProtocol} (h : WireRun encodedBytes GapMeetsMark log p) (bot : String) :
    Sound bot log p := by
  refine h.invariant (P := fun log p => Sound bot log p) ⟨le_rfl, .start _ _⟩ ?_
  intro log p i _ ⟨hok, hgap⟩ hsound
  refine ⟨le_trans hsound.mark_nonneg (step_lastSeq_le hok bot), ?_⟩
  rw [logMarks_append, logMarks_singleton, seeded_append_singleton]
  cases i with
  | request requestType body =>
      simpa [step, entryItems, lastSeq_request] using hsound.ledger
  | seed bot' seq =>
      simp only [step, entryItems, marks_nil, List.append_nil, seedLastSeq_lastSeq]
      split
      · have hmark : max (p.lastSeq bot) (max 0 seq) = max (p.lastSeq bot) seq := by
          have := hsound.mark_nonneg; omega
        rw [hmark]
        exact hsound.ledger.seed seq
      · exact hsound.ledger
  | frame frame =>
      refine hsound.ledger.advance (step_frame_advance hok bot) ?_
      rintro m a b ⟨rfl, hconc⟩
      exact hgap frame _ rfl hconc

theorem Sound.noSilentHole {bot : String} {log : WireLog} {p : JavaBodyProtocol}
    (h : Sound bot log p) : NoSilentHole bot log p := by
  refine ⟨fun n hs hn => ?_, h.ledger.ascending⟩
  rcases h.ledger.accounted n hs hn with ⟨e, he, rfl⟩ | ⟨a, b, hab, ha, hb⟩
  · refine .inl (le_antisymm (h.ledger.countP_le_one _) ?_)
    exact List.countP_pos_iff.mpr ⟨e, he, by simp⟩
  · exact .inr ⟨_, mem_logMarks_missing.mp hab, rfl, ha, hb⟩

/-- **No silent hole.** In a run whose reported gaps all meet the mark,
every bot's numbers are accounted for at every point and its mark never
goes back. -/
theorem no_silent_hole {encodedBytes : JsonObject → Nat} {log : WireLog}
    {p : JavaBodyProtocol} (h : WireRun encodedBytes GapMeetsMark log p) (bot : String) :
    NoSilentHole bot log p
      ∧ ∀ pre post q, log = pre ++ post → WireRun encodedBytes GapMeetsMark pre q →
          q.lastSeq bot ≤ p.lastSeq bot := by
  refine ⟨(sound_of_run h bot).noSilentHole, fun pre post q hlog hq => ?_⟩
  subst hlog
  obtain ⟨q', hq', hpost⟩ := h.split
  obtain rfl := hq.state_unique hq'
  exact hpost.invariant (P := fun _ p => q.lastSeq bot ≤ p.lastSeq bot) hq le_rfl
    fun log p i _ hok hle => le_trans hle (step_lastSeq_le hok.1 bot)

/-! ### A gap above the mark -/

/-- An `EVENT` frame as the server sends it. -/
def eventFrame (bot : String) (seq : Int) (name : String) : Json :=
  .obj [("channel", .str channelName), ("type", .str "EVENT"), ("bot", .str bot),
    ("seq", .int seq), ("tick", .int 0), ("event", .str name), ("data", .obj [])]

/-- The handshake of a client that is told of one request type. -/
def helloAck : Json :=
  .obj [("channel", .str channelName), ("type", .str "HELLO_ACK"),
    ("request_id", .str "r-1"), ("protocol", .str protocolName),
    ("request_types", .arr [.str "RESUME_EVENTS"])]

/-- A `RESUME_EVENTS_RESULT` frame answering `requestId`. -/
def resumeResult (requestId bot : String) (gap : Option (Int × Int))
    (events : List Json) : Json :=
  .obj [("channel", .str channelName), ("type", .str "RESUME_EVENTS_RESULT"),
    ("request_id", .str requestId), ("bot", .str bot),
    ("event_gap", match gap with
      | some (a, b) => .obj [("from", .int a), ("to", .int b)]
      | none => .null),
    ("events", .arr events)]

/-- The run in which the server answers a fresh `RESUME_EVENTS` with the
gap 3..4. -/
theorem run_gap_above_mark :
    ∃ log p, WireRun (fun _ => 0) (fun _ _ => True) log p
      ∧ logMarks "Bot1" log = [.missing 3 4] ∧ seeded "Bot1" log = 0
      ∧ p.lastSeq "Bot1" = 4 :=
  ⟨_, _,
    (Run.start.next (.request "RESUME_EVENTS" []) ⟨nofun, trivial⟩).next
      (.frame (resumeResult "r-1" "Bot1" (some (3, 4)) []))
      ⟨fun _ h => by cases h; exact ⟨_, rfl⟩, trivial⟩,
    rfl, rfl, rfl⟩

/-- Numbers 1 and 2 are then below the mark, and nothing was said about
them. -/
theorem gap_above_mark_leaves_hole :
    ∃ log p, WireRun (fun _ => 0) (fun _ _ => True) log p
      ∧ ¬ NoSilentHole "Bot1" log p := by
  obtain ⟨log, p, hrun, hmarks, hseed, hlast⟩ := run_gap_above_mark
  refine ⟨log, p, hrun, fun hno => ?_⟩
  rcases hno.accounted 1 (by omega) (by omega) with hone | ⟨g, hg, hbot, ha, hb⟩
  · rw [emitted, hmarks] at hone
    exact absurd hone (by decide)
  · obtain ⟨gbot, a, b⟩ := g
    cases hbot
    rw [← mem_logMarks_missing, hmarks, List.mem_singleton] at hg
    cases hg
    exact absurd ha (by decide)

/-- `no_silent_hole` on a run that meets its condition: the server
concedes 1..2, which starts at the first open number. -/
theorem no_silent_hole_of_gap_at_mark :
    ∃ log p, WireRun (fun _ => 0) GapMeetsMark log p ∧ p.lastSeq "Bot1" = 2
      ∧ NoSilentHole "Bot1" log p := by
  have hrun : WireRun (fun _ => 0) GapMeetsMark _ _ := Run.start
    |>.next (.request "RESUME_EVENTS" []) ⟨nofun, nofun⟩
    |>.next (.frame (resumeResult "r-1" "Bot1" (some (1, 2)) []))
      ⟨fun _ h => by cases h; exact ⟨_, rfl⟩,
        fun _ g h hg => by cases h; cases hg; exact .inl (by decide)⟩
  exact ⟨_, _, hrun, rfl, (no_silent_hole hrun "Bot1").1⟩

end JavaBodyProtocol

end MineBot
