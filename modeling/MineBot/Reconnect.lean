import MineBot.EventSequence

/-!
# Reconnecting

A fresh `JavaBodyProtocol` is connected, then `resume_events` seeds the
cursor and asks for a replay. Live `EVENT` frames may arrive from the
handshake on, so what the consumer gets depends on when the page comes.
Seen from the bot, the whole reconnect accepts three lists in turn: the
live events ahead of the page, the replayed events, the live events
after it. One high-water mark orders all three, so a live event that
overtakes the page makes every replayed event below it look old.
-/

namespace MineBot

open HighWater

namespace JavaBodyProtocol

section

variable (encodedBytes : JsonObject → Nat) (bot : String)

/-- The event of a live `EVENT` frame for `bot`. -/
def liveEvent? : WireInput → Option BotEvent
  | .frame (.obj message) =>
      if str? message "channel" = some channelName ∧ str? message "type" = some "EVENT" then
        match parseEvent encodedBytes message with
        | .ok event => if event.bot = bot then some event else none
        | .error _ => none
      else none
  | _ => none

/-- The live events for `bot`, in order of arrival. -/
def liveEvents (inputs : List WireInput) : List BotEvent :=
  inputs.filterMap (liveEvent? encodedBytes bot)

theorem liveEvents_append (is js : List WireInput) :
    liveEvents encodedBytes bot (is ++ js)
      = liveEvents encodedBytes bot is ++ liveEvents encodedBytes bot js :=
  List.filterMap_append

theorem liveEvents_singleton (i : WireInput) :
    liveEvents encodedBytes bot [i] = (liveEvent? encodedBytes bot i).toList := by
  rw [liveEvents]
  cases h : liveEvent? encodedBytes bot i <;> simp [h]

end

/-- Requests, and frames other than a replay: handshakes, responses to
other requests, live events of any bot. -/
def Ambient : WireInput → Prop
  | .request _ _ => True
  | .seed _ _ => False
  | .frame (.obj message) => str? message "type" ≠ some "RESUME_EVENTS_RESULT"
  | .frame _ => True

/-- `resume_events(after_seq)` of the client: the cursor is seeded and
the replay requested. -/
def resumeInputs (bot : String) (afterSeq : Int) : List WireInput :=
  [.seed bot (max 0 afterSeq),
    .request "RESUME_EVENTS" [("bot_name", .str bot), ("after_seq", .int (max 0 afterSeq))]]

/-- A replay page without a gap, carrying `replayed` for `bot`. -/
structure Page (encodedBytes : JsonObject → Nat) (bot : String) (message : JsonObject)
    (replayed : List BotEvent) : Prop where
  isReplay : str? message "type" = some "RESUME_EVENTS_RESULT"
  noGap : ∀ gap, message.get? "event_gap" ≠ some (.obj gap)
  events : ∃ raws, message.get? "events" = some (.arr raws) ∧
    List.Forall₂ (fun raw event => ∃ o, raw = .obj o ∧ parseEvent encodedBytes o = .ok event)
      raws replayed
  forBot : ∀ event ∈ replayed, event.bot = bot

/-- A reconnect of `bot` at `afterSeq`: `connecting` is the handshake,
`awaiting` what comes between the request and its page, `following` what
comes after. The server replays everything up to `h` and pushes live
events in increasing order, above the cursor. -/
structure Reconnect (encodedBytes : JsonObject → Nat) (bot : String) (afterSeq h : Int)
    (connecting awaiting following : List WireInput) (page : JsonObject)
    (replayed : List BotEvent) (log : WireLog) (p : JavaBodyProtocol) : Prop where
  run : WireRun encodedBytes (fun _ _ => True) log p
  inputs : log.map Prod.fst = connecting ++ resumeInputs bot afterSeq ++ awaiting
    ++ .frame (.obj page) :: following
  ambient : ∀ i ∈ connecting ++ awaiting ++ following, Ambient i
  page_replays : Page encodedBytes bot page replayed
  merge : Merge BotEvent.seq (max 0 afterSeq) h
    (liveEvents encodedBytes bot (connecting ++ awaiting)) replayed
    (liveEvents encodedBytes bot following)

/-! ## What one input accepts -/

section

variable {encodedBytes : JsonObject → Nat} {bot : String} {p p' : JavaBodyProtocol}

/-- Seen from `bot`, `items` and the move to `p'` accept `events`. -/
def Accepts (bot : String) (p : JavaBodyProtocol) (events : List BotEvent)
    (items : List Item) (p' : JavaBodyProtocol) : Prop :=
  marks bot items = (acceptAll BotEvent.seq (p.lastSeq bot) events).1
    ∧ p'.lastSeq bot = (acceptAll BotEvent.seq (p.lastSeq bot) events).2

theorem accepts_nil (items : List Item) (hitems : marks bot items = [])
    (hlast : p'.lastSeq bot = p.lastSeq bot) : Accepts bot p [] items p' :=
  ⟨hitems, hlast⟩

theorem Accepts.append {p'' : JavaBodyProtocol} {events events' : List BotEvent}
    {items items' : List Item} (h : Accepts bot p events items p')
    (h' : Accepts bot p' events' items' p'') :
    Accepts bot p (events ++ events') (items ++ items') p'' := by
  constructor
  · rw [marks_append, h.1, h'.1, acceptAll_append, h.2]
  · rw [h'.2, acceptAll_append, h.2]

theorem sequenceEvent_accepts (bot : String) (p : JavaBodyProtocol) (event : BotEvent) :
    Accepts bot p (if event.bot = bot then [event] else [])
      (p.sequenceEvent event).1 (p.sequenceEvent event).2 := by
  split
  · next h =>
      subst h
      obtain ⟨hmarks, hlast⟩ := p.sequenceEvent_self event
      constructor
      · rw [hmarks]; simp [acceptAll]
      · rw [hlast]; rfl
  · next h =>
      obtain ⟨hmarks, hlast⟩ := p.sequenceEvent_of_ne h
      exact accepts_nil _ hmarks hlast

theorem sequenceReplayed_accepts {raws : List Json} {events : List BotEvent}
    {items : List Item}
    (hraws : List.Forall₂ (fun raw event => ∃ o, raw = .obj o
      ∧ parseEvent encodedBytes o = .ok event) raws events)
    (hbot : ∀ event ∈ events, event.bot = bot)
    (h : p.sequenceReplayed encodedBytes raws = (.ok items, p')) :
    Accepts bot p events items p' := by
  induction hraws generalizing p items with
  | nil =>
      obtain ⟨hitems, rfl⟩ := Prod.mk.inj h
      cases hitems
      exact ⟨rfl, rfl⟩
  | @cons raw event raws events hraw _ ih =>
      obtain ⟨o, rfl, hparse⟩ := hraw
      simp only [sequenceReplayed, hparse] at h
      split at h
      · cases h
      · next more p₂ hmore =>
          cases h
          have hfirst := sequenceEvent_accepts bot p event
          rw [if_pos (hbot event (List.mem_cons_self ..))] at hfirst
          exact hfirst.append (ih (fun e he => hbot e (List.mem_cons_of_mem _ he)) hmore)

/-- The page accepts what it replays. -/
theorem feed_page_accepts {message : JsonObject} {replayed : List BotEvent}
    {items : List Item} (hpage : Page encodedBytes bot message replayed)
    (h : p.feed encodedBytes (.obj message) = (.ok items, p')) :
    Accepts bot p replayed items p' := by
  have hgap : replayGap? message = .ok none := by
    unfold replayGap?
    split
    · next gap _ hget _ => exact absurd hget (hpage.noGap gap)
    · rfl
  obtain ⟨raws, hraws, hparsed⟩ := hpage.events
  obtain ⟨_, heq, hfed⟩ := fed_of_feed h
  cases heq
  cases hfed with
  | event event _ htype _ => exact absurd htype (by rw [hpage.isReplay]; decide)
  | quiet _ _ _ hreplay _ _ => exact absurd hpage.isReplay hreplay
  | replay requestId response items _ _ hmore =>
      simp only [ingestReplay, hgap, takeGap, hraws] at hmore
      split at hmore
      · cases hmore
      · next replay p₃ hreplay =>
          cases hmore
          have hadm := sequenceReplayed_accepts hparsed hpage.forBot hreplay
          rw [Accepts, lastSeq_popPending] at hadm
          exact hadm

theorem step_page_accepts {message : JsonObject} {replayed : List BotEvent}
    (hpage : Page encodedBytes bot message replayed)
    (hok : Accepted encodedBytes p (.frame (.obj message))) :
    Accepts bot p replayed
      (entryItems (.frame (.obj message), (p.step encodedBytes (.frame (.obj message))).1))
      (p.step encodedBytes (.frame (.obj message))).2 := by
  obtain ⟨items, hitems⟩ := hok _ rfl
  rcases hfeed : p.feed encodedBytes (.obj message) with ⟨result, p'⟩
  rw [hfeed] at hitems
  subst hitems
  simp only [step, entryItems, hfeed]
  exact feed_page_accepts hpage hfeed

/-- An ambient input accepts the live event it carries. -/
theorem step_ambient_accepts (bot : String) {i : WireInput} (hi : Ambient i)
    (hok : Accepted encodedBytes p i) :
    Accepts bot p (liveEvent? encodedBytes bot i).toList
      (entryItems (i, (p.step encodedBytes i).1)) (p.step encodedBytes i).2 := by
  cases i with
  | request requestType body => exact accepts_nil _ rfl (lastSeq_request p requestType body bot)
  | seed bot' seq => exact hi.elim
  | frame frame =>
      obtain ⟨items, hitems⟩ := hok frame rfl
      rcases hfeed : p.feed encodedBytes frame with ⟨result, p'⟩
      rw [hfeed] at hitems
      subst hitems
      obtain ⟨message, rfl, hfed⟩ := fed_of_feed hfeed
      simp only [step, entryItems, hfeed]
      cases hfed with
      | event event hchannel htype hparse =>
          have hlive : liveEvent? encodedBytes bot (.frame (.obj message))
              = if event.bot = bot then some event else none := by
            simp [liveEvent?, hchannel, htype, hparse]
          have := sequenceEvent_accepts bot p event
          rw [hlive]
          split <;> simp_all
      | replay _ _ _ _ htype _ => exact absurd htype hi
      | quiet _ _ hevent _ hmarks hlast =>
          have hlive : liveEvent? encodedBytes bot (.frame (.obj message)) = none := by
            simp [liveEvent?, hevent]
          rw [hlive]
          exact accepts_nil _ (hmarks bot) (hlast bot)

/-! ## The reconnect as one acceptance -/

/-- A stretch of ambient inputs accepts the live events it carries. -/
theorem ambient_accepts (bot : String) {pre post : WireLog} {cond : JavaBodyProtocol → WireInput → Prop}
    (h : Leads (step encodedBytes)
      (fun _ p i => Accepted encodedBytes p i ∧ cond p i) pre p post p')
    (hpost : ∀ i ∈ post.map Prod.fst, Ambient i) :
    Accepts bot p (liveEvents encodedBytes bot (post.map Prod.fst))
      (post.flatMap entryItems) p' := by
  induction h with
  | done => exact accepts_nil _ rfl rfl
  | @next pre post p p' i hok _ ih =>
      have hfirst := step_ambient_accepts bot (hpost i (by simp)) hok.1
      have hrest := ih fun j hj => hpost j (by simp_all)
      have hall := hfirst.append hrest
      rw [← liveEvents_singleton, ← liveEvents_append] at hall
      exact hall

/-- Seeding the cursor does not tell the events of the handshake from
those after it: all of them lie above it. -/
theorem seeded_accepts {events : List BotEvent} {items : List Item} {cursor : Int}
    (h : Accepts bot fresh events items p) (hcursor : 0 ≤ cursor)
    (habove : ∀ e ∈ events, cursor < e.seq) :
    ∃ m ≤ cursor, marks bot items = (acceptAll BotEvent.seq m events).1
      ∧ (p.seedLastSeq bot cursor).lastSeq bot = (acceptAll BotEvent.seq m events).2 := by
  obtain ⟨hmarks, hlast⟩ := h
  rw [seedLastSeq_lastSeq, if_pos rfl, max_eq_right hcursor, hlast, hmarks]
  cases events with
  | nil => exact ⟨cursor, le_rfl, rfl, max_eq_right hcursor⟩
  | cons e events =>
      refine ⟨0, hcursor, rfl, max_eq_left ?_⟩
      have hhead := seq_le_acceptAll BotEvent.seq (fresh.lastSeq bot)
        (List.mem_cons_self (a := e) (l := events))
      exact le_trans (le_of_lt (habove e (List.mem_cons_self ..))) hhead

end

section

variable {encodedBytes : JsonObject → Nat} {bot : String} {afterSeq h : Int}
variable {connecting awaiting following : List WireInput} {page : JsonObject}
variable {replayed : List BotEvent} {log : WireLog} {p : JavaBodyProtocol}

/-- **A reconnect is one acceptance** of the live events ahead of the
page, the page and the live events after it. -/
theorem Reconnect.logMarks_eq
    (hr : Reconnect encodedBytes bot afterSeq h connecting awaiting following page
      replayed log p) :
    ∃ m ≤ max 0 afterSeq, logMarks bot log
      = (acceptAll BotEvent.seq m
          (liveEvents encodedBytes bot (connecting ++ awaiting) ++ replayed
            ++ liveEvents encodedBytes bot following)).1 := by
  obtain ⟨run, inputs, ambient, hpage, merge⟩ := hr
  simp only [resumeInputs, List.append_assoc, List.cons_append, List.nil_append] at inputs
  obtain ⟨conn, l₁, rfl, rfl, hl₁⟩ := List.map_eq_append_iff.mp inputs
  obtain ⟨⟨i₁, o₁⟩, l₂, rfl, rfl, hl₂⟩ := List.map_eq_cons_iff.mp hl₁
  obtain ⟨⟨i₂, o₂⟩, l₃, rfl, rfl, hl₃⟩ := List.map_eq_cons_iff.mp hl₂
  obtain ⟨await, l₄, rfl, rfl, hl₄⟩ := List.map_eq_append_iff.mp hl₃
  obtain ⟨⟨i₃, o₃⟩, follow, rfl, rfl, rfl⟩ := List.map_eq_cons_iff.mp hl₄
  obtain ⟨p₁, hrun₁, hrest⟩ := run.split
  cases hrest with | next _ _ hrest =>
  cases hrest with | next _ _ hrest =>
  obtain ⟨p₃, hawait, hrest⟩ := hrest.split
  cases hrest with | next _ hok hfollow =>
  have hconn := hrun₁.leads
  have habove := merge.above
  simp only [liveEvents_append, List.mem_append] at habove
  have h₁ := ambient_accepts bot hconn fun i hi => ambient i (by simp_all)
  obtain ⟨m, hm, hmarks, hlast⟩ := seeded_accepts h₁ (le_max_left 0 afterSeq)
    fun e he => habove e (.inl (.inl he))
  have h₃ := ambient_accepts bot hawait fun i hi => ambient i (by simp_all)
  have h₄ := step_page_accepts hpage hok.1
  have h₅ := ambient_accepts bot hfollow fun i hi => ambient i (by simp_all)
  refine ⟨m, hm, ?_⟩
  have hall := ((h₃.append h₄).append h₅).1
  have hseed : ((p₁.step encodedBytes (.seed bot (max 0 afterSeq))).2.step encodedBytes
      (.request "RESUME_EVENTS"
        [("bot_name", .str bot), ("after_seq", .int (max 0 afterSeq))])).2.lastSeq bot
      = (p₁.seedLastSeq bot (max 0 afterSeq)).lastSeq bot := rfl
  rw [hseed, hlast] at hall
  rw [liveEvents_append, List.append_assoc, List.append_assoc, acceptAll_append, ← hmarks,
    ← List.append_assoc (liveEvents _ _ _), ← hall, logMarks_eq, ← marks_append]
  simp [entryItems, step]

/-- Every number delivered, live or in the page, is emitted exactly
once, and no emitted gap covers it. -/
def NoLoss (bot : String) (delivered : List BotEvent) (log : WireLog) : Prop :=
  ∀ d ∈ delivered, (emitted bot log).countP (fun e => e.seq = d.seq) = 1
    ∧ ∀ g, Item.gap g ∈ log.flatMap entryItems → g.bot = bot →
        ¬ (g.fromSeq ≤ d.seq ∧ d.seq ≤ g.toSeq)

theorem contiguous_of_noLoss
    (hr : Reconnect encodedBytes bot afterSeq h connecting awaiting following page
      replayed log p)
    (hno : NoLoss bot (liveEvents encodedBytes bot (connecting ++ awaiting) ++ replayed
      ++ liveEvents encodedBytes bot following) log) :
    Contiguous BotEvent.seq (max 0 afterSeq) h
      (liveEvents encodedBytes bot (connecting ++ awaiting)) := by
  obtain ⟨m, hm, hmarks⟩ := hr.logMarks_eq
  refine hr.merge.contiguous_of_delivered (m := m) fun d hd => ?_
  have hone := (hno d (by simp [hd])).1
  rw [emitted, hmarks] at hone
  obtain ⟨e, he, hseq⟩ := List.countP_pos_iff.mp (by rw [hone]; exact Nat.one_pos)
  exact ⟨e, he, of_decide_eq_true hseq⟩

theorem noLoss_of_contiguous
    (hr : Reconnect encodedBytes bot afterSeq h connecting awaiting following page
      replayed log p)
    (hcont : Contiguous BotEvent.seq (max 0 afterSeq) h
      (liveEvents encodedBytes bot (connecting ++ awaiting))) :
    NoLoss bot (liveEvents encodedBytes bot (connecting ++ awaiting) ++ replayed
      ++ liveEvents encodedBytes bot following) log := by
  obtain ⟨m, hm, hmarks⟩ := hr.logMarks_eq
  intro d hd
  obtain ⟨e, he, hseq⟩ := hr.merge.delivered hcont hm hd
  rw [← hseq]
  refine ⟨?_, fun g hg hbot hcover => ?_⟩
  · rw [emitted, hmarks]
    exact le_antisymm ((acceptAll_ledger BotEvent.seq m _).countP_le_one _)
      (List.countP_pos_iff.mpr ⟨e, he, by simp⟩)
  · obtain ⟨gbot, a, b⟩ := g
    cases hbot
    rw [← mem_logMarks_missing, hmarks] at hg
    exact (Disjoint.start BotEvent.seq m).acceptAll _ |>.apart a b (by simpa using hg) e
      (by simpa using he) hcover

/-- **Reconnecting loses nothing exactly when** the live events that
arrive ahead of the page skip nothing the page replays. -/
theorem reconnect_loses_nothing_iff
    (hr : Reconnect encodedBytes bot afterSeq h connecting awaiting following page
      replayed log p) :
    NoLoss bot (liveEvents encodedBytes bot (connecting ++ awaiting) ++ replayed
        ++ liveEvents encodedBytes bot following) log
      ↔ Contiguous BotEvent.seq (max 0 afterSeq) h
          (liveEvents encodedBytes bot (connecting ++ awaiting)) :=
  ⟨contiguous_of_noLoss hr, noLoss_of_contiguous hr⟩

end

/-! ### A live event that overtakes the page -/

def sampleEvent (seq : Int) : BotEvent :=
  ⟨"Bot1", seq, 0, "chat", none, []⟩

/-- The page with the events 6, 7 and 8. -/
def samplePage : JsonObject :=
  [("channel", .str channelName), ("type", .str "RESUME_EVENTS_RESULT"),
    ("request_id", .str "r-2"), ("bot", .str "Bot1"), ("event_gap", .null),
    ("events", .arr [eventFrame "Bot1" 6 "chat", eventFrame "Bot1" 7 "chat",
      eventFrame "Bot1" 8 "chat"])]

theorem samplePage_replays : Page (fun _ => 0) "Bot1" samplePage
    [sampleEvent 6, sampleEvent 7, sampleEvent 8] where
  isReplay := rfl
  noGap := nofun
  events := ⟨_, rfl, .cons ⟨_, rfl, rfl⟩ (.cons ⟨_, rfl, rfl⟩ (.cons ⟨_, rfl, rfl⟩ .nil))⟩
  forBot := by simp [sampleEvent]

/-- The inputs of a handshake during which event `seq` is pushed. -/
def sampleHandshake (seq : Int) : List WireInput :=
  [.request "HELLO" [], .frame helloAck, .frame (eventFrame "Bot1" seq "chat")]

/-- A client at cursor 5 is pushed event `seq` during its handshake, then
the server replays 6, 7 and 8. -/
theorem run_live_ahead_of_page {seq : Int} (hseq : seq = 6 ∨ seq = 8) :
    ∃ log p, Reconnect (fun _ => 0) "Bot1" 5 8 (sampleHandshake seq) [] [] samplePage
      [sampleEvent 6, sampleEvent 7, sampleEvent 8] log p := by
  have hlive : ∃ items, (feed (fun _ => 0)
      (feed (fun _ => 0) (fresh.request "HELLO" []).2 helloAck).2
      (eventFrame "Bot1" seq "chat")).1 = .ok items := ⟨_, rfl⟩
  refine ⟨_, _, {
    run := Run.start.next (.request "HELLO" []) ⟨nofun, trivial⟩
      |>.next (.frame helloAck) ⟨fun _ h => by cases h; exact ⟨_, rfl⟩, trivial⟩
      |>.next (.frame (eventFrame "Bot1" seq "chat"))
        ⟨fun _ h => by cases h; exact hlive, trivial⟩
      |>.next (.seed "Bot1" 5) ⟨nofun, trivial⟩
      |>.next (.request "RESUME_EVENTS" [("bot_name", .str "Bot1"), ("after_seq", .int 5)])
        ⟨nofun, trivial⟩
      |>.next (.frame (.obj samplePage))
        ⟨fun _ h => by cases h; rcases hseq with rfl | rfl <;> exact ⟨_, rfl⟩, trivial⟩
    inputs := rfl
    ambient := by
      simp only [sampleHandshake, List.append_nil, List.forall_mem_cons]
      exact ⟨trivial, fun h => absurd h (by decide), fun h => absurd h (by simp [str?, Dict.get?]), nofun⟩
    page_replays := samplePage_replays
    merge := ⟨?_, ?_, rfl⟩ }⟩
  · exact List.pairwise_singleton _ (sampleEvent seq)
  · intro e he
    obtain rfl : e = sampleEvent seq := List.mem_singleton.mp he
    have hcursor : max 0 (5 : Int) = 5 := rfl
    have hsample : (sampleEvent seq).seq = seq := rfl
    omega

/-- Event 8 overtaking the page takes 6 and 7 with it. -/
theorem overtaken_replay_is_lost :
    ∃ log p, Reconnect (fun _ => 0) "Bot1" 5 8 (sampleHandshake 8) [] [] samplePage
        [sampleEvent 6, sampleEvent 7, sampleEvent 8] log p
      ∧ ¬ NoLoss "Bot1" [sampleEvent 8, sampleEvent 6, sampleEvent 7, sampleEvent 8] log := by
  obtain ⟨log, p, hr⟩ := run_live_ahead_of_page (.inr rfl)
  refine ⟨log, p, hr, fun hno => ?_⟩
  obtain ⟨e, he, hseq⟩ := contiguous_of_noLoss hr hno (sampleEvent 8)
    (List.mem_singleton.mpr rfl) 6 (by decide) (by decide) (by decide)
  obtain rfl : e = sampleEvent 8 := List.mem_singleton.mp he
  exact absurd hseq (by decide)

/-- `reconnect_loses_nothing_iff` where the pushed event is the next one. -/
theorem reconnect_loses_nothing_next :
    ∃ log p, Reconnect (fun _ => 0) "Bot1" 5 8 (sampleHandshake 6) [] [] samplePage
        [sampleEvent 6, sampleEvent 7, sampleEvent 8] log p
      ∧ NoLoss "Bot1" [sampleEvent 6, sampleEvent 6, sampleEvent 7, sampleEvent 8] log := by
  obtain ⟨log, p, hr⟩ := run_live_ahead_of_page (.inl rfl)
  refine ⟨log, p, hr, (reconnect_loses_nothing_iff hr).mpr fun e he n hlo hlt _ => ?_⟩
  obtain rfl : e = sampleEvent 6 := List.mem_singleton.mp he
  have hsix : (sampleEvent 6).seq = 6 := rfl
  have hcursor : max 0 (5 : Int) = 5 := rfl
  omega

end JavaBodyProtocol

end MineBot
