import Mathlib
import MineBot.JavaBodyClient

/-!
# What a poll returns

Runs of one body: frames pumped and polls made, in any interleaving. The
events a poll owes are read off the log (`owed`): those emitted for the
bot with a number above the cursor the body held when they came.

Both drains advance the same cursor. A gap that was buffered behind an
event can reach past the event's number, and then the gap loop, which
runs first, moves the cursor over an event that is still in the other
buffer; the event loop drops it as old. So a poll keeps everything when
no waiting gap reaches up to a waiting event (`GapsStayBelow`), and its
desync events stay clear of emitted numbers when the server concedes
nothing it has sent (`ConcedesNothingEmitted`).
-/

namespace MineBot

namespace JavaBody

open JavaBodyProtocol HighWater JavaBodyClient

/-! ## The two loops -/

/-- `es` has increasing numbers, above `lo` and up to `hi`. -/
structure Ascends (lo : Int) (es : List Event) (hi : Int) : Prop where
  pairwise : es.Pairwise fun e e' => e.seq < e'.seq
  above : ∀ e ∈ es, lo < e.seq
  below : ∀ e ∈ es, e.seq ≤ hi
  le : lo ≤ hi

namespace Ascends

variable {a b c : Int} {xs ys : List Event}

theorem nil (n : Int) : Ascends n [] n := ⟨.nil, by simp, by simp, le_rfl⟩

theorem singleton {e : Event} (h : a < e.seq) : Ascends a [e] e.seq :=
  ⟨List.pairwise_singleton _ _, by simpa, by simp, le_of_lt h⟩

theorem append (h : Ascends a xs b) (h' : Ascends b ys c) : Ascends a (xs ++ ys) c where
  pairwise := List.pairwise_append.mpr ⟨h.pairwise, h'.pairwise, fun x hx y hy =>
    lt_of_le_of_lt (h.below x hx) (h'.above y hy)⟩
  above := fun e he => (List.mem_append.mp he).elim (h.above e)
    fun he => lt_of_le_of_lt h.le (h'.above e he)
  below := fun e he => (List.mem_append.mp he).elim
    (fun he => le_trans (h.below e he) h'.le) (h'.below e)
  le := le_trans h.le h'.le

end Ascends

section Loops

variable (bot : String)

theorem desyncsOf_ascends (last : Int) (gaps : List EventGap) :
    Ascends last (desyncsOf bot last gaps).1 (desyncsOf bot last gaps).2 := by
  induction gaps generalizing last with
  | nil => exact .nil last
  | cons gap gaps ih =>
      rw [desyncsOf]
      split
      · exact ih last
      · next hnew =>
          have hseq : (desyncEvent bot last gap).seq = max last gap.toSeq := by
            simp only [desyncEvent]; omega
          have hhead : Ascends last [desyncEvent bot last gap] (max last gap.toSeq) :=
            hseq ▸ Ascends.singleton (by rw [hseq]; omega)
          exact hhead.append (ih _)

theorem eventsOf_ascends (last : Int) (items : List BotEvent) :
    Ascends last (eventsOf bot last items).1 (eventsOf bot last items).2 := by
  induction items generalizing last with
  | nil => exact .nil last
  | cons item items ih =>
      rw [eventsOf]
      split
      · exact ih last
      · next hnew =>
          have hhead : Ascends last [contractEvent item] (contractEvent item).seq :=
            .singleton (by simp only [contractEvent]; omega)
          exact hhead.append (ih _)

variable {bot}

/-- The gap loop stays below a number that no gap reaches. -/
theorem desyncsOf_lt {last n : Int} {gaps : List EventGap} (hlast : last < n)
    (hgaps : ∀ g ∈ gaps, g.bot = bot → g.toSeq < n) : (desyncsOf bot last gaps).2 < n := by
  induction gaps generalizing last with
  | nil => exact hlast
  | cons gap gaps ih =>
      have htail : ∀ g ∈ gaps, g.bot = bot → g.toSeq < n :=
        fun g hg => hgaps g (List.mem_cons_of_mem _ hg)
      rw [desyncsOf]
      split
      · exact ih hlast htail
      · next hnew =>
          have := hgaps gap (List.mem_cons_self ..) (by grind)
          exact ih (by omega) htail

/-- A gap becomes a desync event when it reaches past the cursor and past
every gap before it. -/
theorem mem_desyncsOf {last : Int} {gaps : List EventGap} {d : Event}
    (hd : d ∈ (desyncsOf bot last gaps).1) :
    ∃ pre g post l, gaps = pre ++ g :: post ∧ g.bot = bot ∧ d = desyncEvent bot l g
      ∧ last < g.toSeq ∧ ∀ g' ∈ pre, g'.bot = bot → g'.toSeq < g.toSeq := by
  induction gaps generalizing last with
  | nil => cases hd
  | cons gap gaps ih =>
      rw [desyncsOf] at hd
      split at hd
      · next hskip =>
          obtain ⟨pre, g, post, l, rfl, hbot, rfl, hlt, hpre⟩ := ih hd
          refine ⟨gap :: pre, g, post, l, rfl, hbot, rfl, hlt, fun g' hg' hbot' => ?_⟩
          rcases List.mem_cons.mp hg' with rfl | hg'
          · have : g'.toSeq ≤ last := hskip.resolve_left (not_not.mpr hbot')
            omega
          · exact hpre g' hg' hbot'
      · next hnew =>
          obtain ⟨hbot, hlast⟩ := not_or.mp hnew
          rcases List.mem_cons.mp hd with rfl | hd
          · exact ⟨[], gap, gaps, last, rfl, not_not.mp hbot, rfl, by omega, by simp⟩
          · obtain ⟨pre, g, post, l, rfl, hbot', rfl, hlt, hpre⟩ := ih hd
            refine ⟨gap :: pre, g, post, l, rfl, hbot', rfl, by omega, fun g' hg' hb => ?_⟩
            rcases List.mem_cons.mp hg' with rfl | hg'
            · omega
            · exact hpre g' hg' hb

theorem seq_le_eventsOf (last : Int) {items : List BotEvent} {e : BotEvent}
    (he : e ∈ items) (hbot : e.bot = bot) : e.seq ≤ (eventsOf bot last items).2 := by
  induction items generalizing last with
  | nil => cases he
  | cons item items ih =>
      rw [eventsOf]
      rcases List.mem_cons.mp he with rfl | he
      · split
        · next hskip =>
            have hold : e.seq ≤ last := hskip.resolve_left (not_not.mpr hbot)
            exact le_trans hold (eventsOf_ascends bot last items).le
        · exact (eventsOf_ascends bot e.seq items).le
      · split
        · exact ih last he
        · exact ih item.seq he

/-- Over a buffer in order, the event loop returns what lies above the
cursor it starts from. -/
theorem eventsOf_eq {last : Int} {items : List BotEvent}
    (hasc : (items.filter (·.bot = bot)).Pairwise fun e e' => e.seq < e'.seq) :
    (eventsOf bot last items).1
      = (items.filter fun e => e.bot = bot ∧ last < e.seq).map contractEvent := by
  induction items generalizing last with
  | nil => rfl
  | cons item items ih =>
      rw [eventsOf]
      by_cases hbot : item.bot = bot
      · rw [List.filter_cons_of_pos (by simpa using hbot), List.pairwise_cons] at hasc
        by_cases hold : item.seq ≤ last
        · rw [if_pos (.inr hold), ih hasc.2, List.filter_cons_of_neg (by simp [hold])]
        · rw [if_neg (by simp [hbot, hold]),
            List.filter_cons_of_pos (by simp [hbot]; omega), List.map_cons]
          change contractEvent item :: (eventsOf bot item.seq items).1 = _
          rw [ih hasc.2]
          have hsame : items.filter (fun e => e.bot = bot ∧ item.seq < e.seq)
              = items.filter fun e => e.bot = bot ∧ last < e.seq := by
            refine List.filter_congr fun e he => ?_
            by_cases hb : e.bot = bot
            · have := hasc.1 e (List.mem_filter.mpr ⟨he, by simpa using hb⟩)
              simp only [hb, true_and, decide_eq_decide]
              omega
            · simp [hb]
          rw [hsame]
      · rw [List.filter_cons_of_neg (by simpa using hbot)] at hasc
        rw [if_pos (.inl hbot), ih hasc, List.filter_cons_of_neg (by simp [hbot])]

end Loops

/-! ## What a log says -/

abbrev BodyLog := List (BodyInput × BodyOutput)

/-- The items of an entry. -/
def entryItems : BodyInput × BodyOutput → List Item
  | (_, .fed (.ok items) _) => items
  | _ => []

/-- The events of an entry that a poll has to return: the cursor had not
reached them. -/
def entryOwed (bot : String) : BodyInput × BodyOutput → List BotEvent
  | (_, .fed (.ok its) lastSeq) => (items (marks bot its)).filter (lastSeq < ·.seq)
  | _ => []

def entryDesyncs : BodyInput × BodyOutput → List Event
  | (_, .polled desyncs _) => desyncs
  | _ => []

def entryEvents : BodyInput × BodyOutput → List Event
  | (_, .polled _ events) => events
  | _ => []

/-- The events emitted for `bot`. -/
def emitted (bot : String) (log : BodyLog) : List BotEvent :=
  log.flatMap fun entry => items (marks bot (entryItems entry))

def owed (bot : String) (log : BodyLog) : List BotEvent := log.flatMap (entryOwed bot)

/-- The desync events that polls returned for gaps. -/
def desyncs (log : BodyLog) : List Event := log.flatMap entryDesyncs

/-- The events that polls returned for events. -/
def events (log : BodyLog) : List Event := log.flatMap entryEvents

/-- Everything that polls returned, in order. -/
def returned (log : BodyLog) : List Event :=
  log.flatMap fun entry => entryDesyncs entry ++ entryEvents entry

/-- What the next completed poll will return of the buffer. -/
def waiting (b : JavaBody) : List BotEvent :=
  b.client.eventBuffer.filter fun e => e.bot = b.botName ∧ b.lastSeq < e.seq

/-- The desync events of a poll that has drained the gaps. -/
def pendingDesyncs (b : JavaBody) : List Event :=
  match b.phase with
  | .gapsDrained desyncs => desyncs
  | _ => []

/-- A desync event says of `n` that it was missed. -/
def Covers (d : Event) (n : Int) : Prop :=
  ∃ a b, d.data.get? "expected_seq" = some (.int a)
    ∧ d.data.get? "observed_seq" = some (.int b) ∧ a ≤ n ∧ n < b

theorem covers_desyncEvent {bot : String} {last : Int} {g : EventGap} {n : Int} :
    Covers (desyncEvent bot last g) n ↔ g.fromSeq ≤ n ∧ n ≤ g.toSeq := by
  constructor
  · rintro ⟨a, b, ha, hb, hle, hlt⟩
    cases ha
    cases hb
    exact ⟨hle, Int.lt_add_one_iff.mp hlt⟩
  · rintro ⟨hle, hlt⟩
    exact ⟨_, _, rfl, rfl, hle, Int.lt_add_one_iff.mpr hlt⟩

/-! ## Runs -/

/-- Frames that do not violate the protocol. -/
def Accepted (encodedBytes : JsonObject → Nat) (b : JavaBody) (i : BodyInput) : Prop :=
  ∀ message, i = .frame message →
    ∃ items, (b.client.protocol.feed encodedBytes message).1 = .ok items

/-- When the gaps are drained, none of them reaches up to an event that
waits in the other buffer. -/
def GapsStayBelow (b : JavaBody) (i : BodyInput) : Prop :=
  i = .drainGaps → b.phase = .answered →
    ∀ g ∈ b.client.eventGaps, g.bot = b.botName → ∀ e ∈ waiting b, g.toSeq < e.seq

/-- A gap the server reports covers nothing emitted so far, or the
cursor will stand at its end before it is drained: it is there already,
an earlier gap takes it there, or an event does that is drained first. -/
def ConcedesNothingEmitted (log : BodyLog) (b : JavaBody) (i : BodyInput) : Prop :=
  ∀ message g, i = .frame message → concession? message = some g → g.bot = b.botName →
    (∀ e ∈ emitted b.botName log, ¬ (g.fromSeq ≤ e.seq ∧ e.seq ≤ g.toSeq))
      ∨ g.toSeq ≤ b.lastSeq
      ∨ (∃ g' ∈ b.client.eventGaps, g'.bot = b.botName ∧ g.toSeq ≤ g'.toSeq)
      ∨ ((∃ desyncs, b.phase = .gapsDrained desyncs)
          ∧ ∃ e ∈ b.client.eventBuffer, e.bot = b.botName ∧ g.toSeq ≤ e.seq)

/-- Runs of a body on accepted frames, each step also meeting `cond`. -/
abbrev BodyRun (encodedBytes : JsonObject → Nat) (bot : String) (lastSeq : Int)
    (cond : BodyLog → JavaBody → BodyInput → Prop) : BodyLog → JavaBody → Prop :=
  Run (step encodedBytes) (fun log b i => Accepted encodedBytes b i ∧ cond log b i)
    (start bot lastSeq)

/-- Each owed event was returned once or still waits, what was returned
is in order, and no desync event covers an emitted number. -/
structure NoEventLost (bot : String) (log : BodyLog) (b : JavaBody) : Prop where
  returned_once : ∀ e ∈ owed bot log,
    if e ∈ waiting b then contractEvent e ∉ events log
    else (events log).count (contractEvent e) = 1
  nothing_waits : ∀ pre ds es, log = pre ++ [(.drainEvents, .polled ds es)] →
    waiting b = []
  ascending : (returned log).Pairwise fun e e' => e.seq < e'.seq
  desyncs_apart : ∀ d ∈ desyncs log, ∀ e ∈ emitted bot log, ¬ Covers d e.seq

/-! ## The invariant -/

/-- The mark of the polled bot. -/
def mark (b : JavaBody) : Int := b.client.protocol.lastSeq b.botName

/-- A gap covers no event of `es`. -/
def Apart (g : EventGap) (es : List BotEvent) : Prop :=
  ∀ e ∈ es, ¬ (g.fromSeq ≤ e.seq ∧ e.seq ≤ g.toSeq)

/-- The cursor will have reached `n` before the gaps behind `ahead` are
drained. -/
def Overtaken (b : JavaBody) (ahead : List EventGap) (n : Int) : Prop :=
  (∃ g ∈ ahead, g.bot = b.botName ∧ n ≤ g.toSeq)
    ∨ (∃ desyncs, b.phase = .gapsDrained desyncs)
        ∧ ∃ e ∈ b.client.eventBuffer, e.bot = b.botName ∧ n ≤ e.seq

structure Sound (last : Int) (log : BodyLog) (b : JavaBody) : Prop where
  emitted_ascending : (emitted b.botName log).Pairwise fun e e' => e.seq < e'.seq
  emitted_le : ∀ e ∈ emitted b.botName log, e.seq ≤ mark b
  buffered : b.client.eventBuffer.filter (·.bot = b.botName) <:+ emitted b.botName log
  accounted : (owed b.botName log).map contractEvent
    = events log ++ (waiting b).map contractEvent
  ascends : Ascends last (returned log ++ pendingDesyncs b) b.lastSeq
  gaps_le : ∀ g ∈ b.client.eventGaps, g.bot = b.botName → g.toSeq ≤ mark b
  gaps_apart : ∀ ahead g behind, b.client.eventGaps = ahead ++ g :: behind →
    g.bot = b.botName → b.lastSeq < g.toSeq →
    Apart g (emitted b.botName log) ∨ Overtaken b ahead g.toSeq
  desyncs_le : ∀ d ∈ desyncs log ++ pendingDesyncs b, ∀ n, Covers d n → n ≤ mark b
  desyncs_apart : ∀ d ∈ desyncs log ++ pendingDesyncs b,
    ∀ e ∈ emitted b.botName log, ¬ Covers d e.seq

theorem items_marks (bot : String) (its : List Item) :
    items (marks bot its) = (its.filterMap eventOf?).filter (·.bot = bot) := by
  induction its with
  | nil => rfl
  | cons item its ih =>
      cases item with
      | event e =>
          by_cases hbot : e.bot = bot <;>
            simpa [marks, mark?, eventOf?, hbot, items] using ih
      | gap g =>
          have hgap : items (marks bot (.gap g :: its)) = items (marks bot its) := by
            by_cases hbot : g.bot = bot <;> simp [marks, mark?, hbot, items]
          rw [hgap]
          exact ih
      | _ => exact ih

theorem mem_marks_missing {bot : String} {its : List Item} {g : EventGap}
    (hg : g ∈ its.filterMap gapOf?) (hbot : g.bot = bot) :
    Mark.missing g.fromSeq g.toSeq ∈ marks bot its := by
  obtain ⟨item, hitem, hgap⟩ := List.mem_filterMap.mp hg
  refine List.mem_filterMap.mpr ⟨item, hitem, ?_⟩
  cases item with
  | gap g' => cases hgap; simp [mark?, hbot]
  | _ => cases hgap

theorem waiting_eq (b : JavaBody) : waiting b
    = (b.client.eventBuffer.filter (·.bot = b.botName)).filter (b.lastSeq < ·.seq) := by
  rw [waiting, List.filter_filter]
  exact List.filter_congr fun e _ => by rw [Bool.decide_and, Bool.and_comm]

section Step

variable {encodedBytes : JsonObject → Nat} {last : Int} {log : BodyLog} {b b' : JavaBody}

theorem emitted_append (bot : String) (log log' : BodyLog) :
    emitted bot (log ++ log') = emitted bot log ++ emitted bot log' :=
  List.flatMap_append

theorem owed_append (bot : String) (log log' : BodyLog) :
    owed bot (log ++ log') = owed bot log ++ owed bot log' :=
  List.flatMap_append

theorem desyncs_append (log log' : BodyLog) :
    desyncs (log ++ log') = desyncs log ++ desyncs log' :=
  List.flatMap_append

theorem events_append (log log' : BodyLog) :
    events (log ++ log') = events log ++ events log' :=
  List.flatMap_append

theorem returned_append (log log' : BodyLog) :
    returned (log ++ log') = returned log ++ returned log' :=
  List.flatMap_append

/-- A step that shows nothing and touches neither buffer nor cursor. -/
theorem Sound.quiet (h : Sound last log b) {entry : BodyInput × BodyOutput}
    (hentry : entry.2 = .nothing ∨ ∃ e, entry.2 = .refused e)
    (hbot : b'.botName = b.botName) (hmark : mark b ≤ mark b')
    (hgaps : b'.client.eventGaps = b.client.eventGaps)
    (hbuffer : b'.client.eventBuffer = b.client.eventBuffer)
    (hlast : b'.lastSeq = b.lastSeq) (hphase : pendingDesyncs b' = pendingDesyncs b)
    (hdraining : (∃ ds, b.phase = .gapsDrained ds) → ∃ ds, b'.phase = .gapsDrained ds) :
    Sound last (log ++ [entry]) b' := by
  have hemitted : emitted b'.botName (log ++ [entry]) = emitted b.botName log := by
    obtain ⟨i, o⟩ := entry
    rcases hentry with rfl | ⟨e, rfl⟩ <;> simp [emitted, entryItems, hbot, items]
  have howed : owed b'.botName (log ++ [entry]) = owed b.botName log := by
    obtain ⟨i, o⟩ := entry
    rcases hentry with rfl | ⟨e, rfl⟩ <;> simp [owed, entryOwed, hbot]
  have hreturned : desyncs (log ++ [entry]) = desyncs log
      ∧ events (log ++ [entry]) = events log ∧ returned (log ++ [entry]) = returned log := by
    obtain ⟨i, o⟩ := entry
    rcases hentry with rfl | ⟨e, rfl⟩ <;>
      simp [desyncs, events, returned, entryDesyncs, entryEvents]
  have hwaiting : waiting b' = waiting b := by simp [waiting, hbuffer, hbot, hlast]
  obtain ⟨hdesyncs, hevents, hret⟩ := hreturned
  constructor
  · rw [hemitted]; exact h.emitted_ascending
  · rw [hemitted]; exact fun e he => le_trans (h.emitted_le e he) hmark
  · rw [hemitted, hbuffer, hbot]; exact h.buffered
  · rw [howed, hevents, hwaiting]; exact h.accounted
  · rw [hret, hphase, hlast]; exact h.ascends
  · rw [hgaps, hbot]; exact fun g hg hb => le_trans (h.gaps_le g hg hb) hmark
  · rw [hgaps, hbot, hlast]
    intro ahead g behind hlist hb hnew
    rcases h.gaps_apart ahead g behind hlist hb hnew with hapart | hover | ⟨hphase, hevent⟩
    · exact .inl (by rw [← hbot, hemitted]; exact hapart)
    · exact .inr (.inl (by rw [hbot]; exact hover))
    · exact .inr (.inr ⟨hdraining hphase, by rw [hbuffer, hbot]; exact hevent⟩)
  · rw [hdesyncs, hphase]; exact fun d hd n hn => le_trans (h.desyncs_le d hd n hn) hmark
  · rw [hdesyncs, hphase, hemitted]; exact h.desyncs_apart

/-- A body after a frame that yielded `its` and left the protocol at `p`. -/
def afterFrame (b : JavaBody) (its : List Item) (p : JavaBodyProtocol) : JavaBody :=
  { b with
    client := { b.client with
      protocol := p
      eventGaps := b.client.eventGaps ++ its.filterMap gapOf?
      eventBuffer := b.client.eventBuffer ++ its.filterMap eventOf? }
    phase := phaseAfter b.phase (.ok (its.filter handedOn)) }

theorem step_frame {message : Json} {its : List Item} {p : JavaBodyProtocol}
    (hfeed : b.client.protocol.feed encodedBytes message = (.ok its, p)) :
    b.step encodedBytes (.frame message)
      = (.fed (.ok its) b.lastSeq, b.afterFrame its p) := by
  simp only [step, pumpOnce, hfeed, afterFrame]

theorem waiting_afterFrame (its : List Item) (p : JavaBodyProtocol) :
    waiting (b.afterFrame its p)
      = waiting b ++ (items (marks b.botName its)).filter (b.lastSeq < ·.seq) := by
  rw [waiting_eq, waiting_eq, items_marks, ← List.filter_append, ← List.filter_append]
  rfl

theorem phaseAfter_draining (phase : PollPhase) (result : Except FeedError (List Item)) :
    (∃ ds, phaseAfter phase result = .gapsDrained ds)
      ↔ ∃ ds, phase = .gapsDrained ds := by
  cases phase <;> cases result <;> simp only [phaseAfter]
  split <;> simp

theorem pendingDesyncs_afterFrame (its : List Item) (p : JavaBodyProtocol) :
    pendingDesyncs (b.afterFrame its p) = pendingDesyncs b := by
  unfold pendingDesyncs afterFrame
  cases hphase : b.phase <;> simp only [phaseAfter]
  split
  · next hdrained => split at hdrained <;> cases hdrained
  · rfl

theorem Overtaken.afterFrame {ahead ahead' : List EventGap} {n : Int} (its : List Item)
    (p : JavaBodyProtocol) (h : Overtaken b ahead n) (hahead : ahead ⊆ ahead') :
    Overtaken (b.afterFrame its p) ahead' n := by
  rcases h with ⟨g, hg, hbot, hle⟩ | ⟨hdraining, e, he, hbot, hle⟩
  · exact .inl ⟨g, hahead hg, hbot, hle⟩
  · exact .inr ⟨(phaseAfter_draining ..).mpr hdraining, e, List.mem_append_left _ he, hbot, hle⟩

/-- A gap that comes with a frame is apart from everything emitted up to
and by the frame, unless the cursor will pass it. -/
theorem Sound.new_gap_apart (h : Sound last log b) {message : Json} {its : List Item}
    {p : JavaBodyProtocol}
    (hfeed : b.client.protocol.feed encodedBytes message = (.ok its, p))
    (hcond : ConcedesNothingEmitted log b (.frame message))
    {g : EventGap} (hg : g ∈ its.filterMap gapOf?) (hbot : g.bot = b.botName)
    (hlt : b.lastSeq < g.toSeq) :
    Apart g (emitted b.botName log ++ items (marks b.botName its))
      ∨ Overtaken b b.client.eventGaps g.toSeq := by
  have hadv := feed_advance encodedBytes hfeed b.botName
  have hnew := hadv.delivers.2
  obtain ⟨-, ⟨hfrom, hapart⟩ | ⟨_, -, ⟨rfl, hconc⟩, hapart⟩⟩ :=
    hadv.reports (mem_marks_missing hg hbot)
  · refine .inl fun e he hcover => ?_
    rcases List.mem_append.mp he with he | he
    · have hle : e.seq ≤ b.client.protocol.lastSeq b.botName := h.emitted_le e he
      omega
    · exact hapart e he hcover
  · have hconceded : concession? message = some g := by rw [hconc, ← hbot]
    rcases hcond message g rfl hconceded hbot with hold | hpassed | hover | hover
    · refine .inl fun e he hcover => ?_
      rcases List.mem_append.mp he with he | he
      · exact hold e he hcover
      · exact absurd (hapart e he (hnew e he).1) (by omega)
    · omega
    · exact .inr (.inl hover)
    · exact .inr (.inr hover)

/-- A frame: what it emits is new, and its gaps are apart from all of it. -/
theorem Sound.frame (h : Sound last log b) {message : Json}
    (hok : Accepted encodedBytes b (.frame message))
    (hcond : ConcedesNothingEmitted log b (.frame message)) :
    Sound last (log ++ [(.frame message, (b.step encodedBytes (.frame message)).1)])
      (b.step encodedBytes (.frame message)).2 := by
  obtain ⟨its, hits⟩ := hok message rfl
  rcases hfeed : b.client.protocol.feed encodedBytes message with ⟨result, p⟩
  rw [hfeed] at hits
  subst hits
  have hadv := feed_advance encodedBytes hfeed b.botName
  obtain ⟨hasc, hnew⟩ := hadv.delivers
  rw [step_frame hfeed]
  change Sound last (log ++ [(.frame message, .fed (.ok its) b.lastSeq)]) (b.afterFrame its p)
  have hemitted : emitted (b.afterFrame its p).botName (log ++ [(.frame message, .fed (.ok its) b.lastSeq)])
      = emitted b.botName log ++ items (marks b.botName its) := by
    simp [emitted, entryItems, afterFrame]
  have howed : owed (b.afterFrame its p).botName (log ++ [(.frame message, .fed (.ok its) b.lastSeq)])
      = owed b.botName log ++ (items (marks b.botName its)).filter (b.lastSeq < ·.seq) := by
    simp [owed, entryOwed, afterFrame]
  have hdesyncs : desyncs (log ++ [(.frame message, .fed (.ok its) b.lastSeq)])
      = desyncs log := by simp [desyncs, entryDesyncs]
  have hevents : events (log ++ [(.frame message, .fed (.ok its) b.lastSeq)])
      = events log := by simp [events, entryEvents]
  have hreturned : returned (log ++ [(.frame message, .fed (.ok its) b.lastSeq)])
      = returned log := by simp [returned, entryDesyncs, entryEvents]
  constructor
  · rw [hemitted, List.pairwise_append]
    exact ⟨h.emitted_ascending, hasc, fun e he e' he' =>
      lt_of_le_of_lt (h.emitted_le e he) (hnew e' he').1⟩
  · rw [hemitted]
    intro e he
    exact (List.mem_append.mp he).elim
      (fun he => le_trans (h.emitted_le e he) hadv.mark_le) fun he => (hnew e he).2
  · obtain ⟨drained, hdrained⟩ := h.buffered
    refine ⟨drained, ?_⟩
    rw [hemitted, ← hdrained, List.append_assoc, items_marks, ← List.filter_append]
    rfl
  · rw [howed, hevents, waiting_afterFrame, List.map_append, List.map_append, h.accounted,
      List.append_assoc]
  · rw [hreturned, pendingDesyncs_afterFrame]
    exact h.ascends
  · intro g hg hbot
    rcases List.mem_append.mp hg with hg | hg
    · exact le_trans (h.gaps_le g hg hbot) hadv.mark_le
    · exact (hadv.reports (mem_marks_missing hg hbot)).1
  · intro ahead g behind hlist hbot hlt
    rw [hemitted]
    have hnewGap : ∀ ahead, b.client.eventGaps ⊆ ahead → g ∈ its.filterMap gapOf? →
        Apart g (emitted b.botName log ++ items (marks b.botName its))
          ∨ Overtaken (b.afterFrame its p) ahead g.toSeq := fun ahead hsub hg =>
      (h.new_gap_apart hfeed hcond hg hbot hlt).imp_right (·.afterFrame its p hsub)
    rcases List.append_eq_append_iff.mp hlist with ⟨ahead', rfl, hgs⟩ | ⟨behind', hold, hrest⟩
    · exact hnewGap _ (List.subset_append_left _ _) (by rw [hgs]; simp)
    · cases behind' with
      | nil =>
          rw [List.append_nil] at hold
          rw [List.nil_append] at hrest
          exact hnewGap _ (by rw [hold]; exact List.Subset.refl _) (by rw [← hrest]; simp)
      | cons g' behind' =>
          obtain rfl : g = g' := (List.cons.inj hrest).1
          refine (h.gaps_apart ahead g behind' hold hbot hlt).imp (fun hapart e he hcover => ?_)
            (·.afterFrame its p (List.Subset.refl _))
          rcases List.mem_append.mp he with he | he
          · exact hapart e he hcover
          · have hle : g.toSeq ≤ b.client.protocol.lastSeq b.botName :=
              h.gaps_le g (by rw [hold]; simp) hbot
            exact absurd (hnew e he).1 (by omega)
  · rw [hdesyncs, pendingDesyncs_afterFrame]
    exact fun d hd n hn => le_trans (h.desyncs_le d hd n hn) hadv.mark_le
  · rw [hdesyncs, pendingDesyncs_afterFrame, hemitted]
    intro d hd e he hcover
    rcases List.mem_append.mp he with he | he
    · exact h.desyncs_apart d hd e he hcover
    · have hle : e.seq ≤ b.client.protocol.lastSeq b.botName :=
        h.desyncs_le d hd e.seq hcover
      exact absurd (hnew e he).1 (by omega)

/-- A body that has drained the gaps. -/
def afterDrainGaps (b : JavaBody) : JavaBody :=
  { b with
    client := { b.client with eventGaps := [] }
    lastSeq := (desyncsOf b.botName b.lastSeq b.client.eventGaps).2
    phase := .gapsDrained (desyncsOf b.botName b.lastSeq b.client.eventGaps).1 }

theorem step_drainGaps (hphase : b.phase = .answered) :
    b.step encodedBytes .drainGaps = (.nothing, b.afterDrainGaps) := by
  simp only [step, hphase, drainEventGaps, afterDrainGaps]

/-- The gap loop moves the cursor over no waiting event. -/
theorem waiting_afterDrainGaps (hphase : b.phase = .answered)
    (hcond : GapsStayBelow b .drainGaps) : waiting b.afterDrainGaps = waiting b := by
  refine List.filter_congr fun e he => ?_
  have hle := (desyncsOf_ascends b.botName b.lastSeq b.client.eventGaps).le
  refine decide_eq_decide.mpr ⟨fun ⟨hbot, hlt⟩ => ⟨hbot, lt_of_le_of_lt hle hlt⟩,
    fun ⟨hbot, hlt⟩ => ⟨hbot, desyncsOf_lt hlt fun g hg hb => ?_⟩⟩
  exact hcond rfl hphase g hg hb e (List.mem_filter.mpr ⟨he, by simp [hbot, hlt]⟩)

theorem Sound.drainGaps (h : Sound last log b) (hphase : b.phase = .answered)
    (hcond : GapsStayBelow b .drainGaps) :
    Sound last (log ++ [(.drainGaps, (b.step encodedBytes .drainGaps).1)])
      (b.step encodedBytes .drainGaps).2 := by
  have hpending : pendingDesyncs b = [] := by simp [pendingDesyncs, hphase]
  obtain ⟨h₁, h₂, h₃, h₄, h₅, hgapsLe, hgaps, h₈, h₉⟩ := h
  rw [hpending, List.append_nil] at h₅ h₈ h₉
  have hnew : ∀ d ∈ pendingDesyncs b.afterDrainGaps,
      (∀ n, Covers d n → n ≤ mark b) ∧ ∀ e ∈ emitted b.botName log, ¬ Covers d e.seq := by
    intro d hd
    obtain ⟨ahead, g, behind, l, hlist, hbot, rfl, hlt, hahead⟩ := mem_desyncsOf hd
    refine ⟨fun n hn => ?_, fun e he hcover => ?_⟩
    · exact le_trans (covers_desyncEvent.mp hn).2 (hgapsLe g (by rw [hlist]; simp) hbot)
    · rcases hgaps ahead g behind hlist hbot hlt with hap | ⟨g', hg', hb, hle'⟩ | ⟨⟨_, hd⟩, _⟩
      · exact hap e he (covers_desyncEvent.mp hcover)
      · exact absurd (hahead g' hg' hb) (by omega)
      · rw [hphase] at hd; cases hd
  rw [step_drainGaps hphase]
  change Sound last (log ++ [(.drainGaps, .nothing)]) b.afterDrainGaps
  have hemitted : emitted b.afterDrainGaps.botName (log ++ [(.drainGaps, .nothing)])
      = emitted b.botName log := by simp [emitted, entryItems, items, afterDrainGaps]
  have howed : owed b.afterDrainGaps.botName (log ++ [(.drainGaps, .nothing)])
      = owed b.botName log := by simp [owed, entryOwed, afterDrainGaps]
  have hdesyncs : desyncs (log ++ [(.drainGaps, .nothing)]) = desyncs log := by
    simp [desyncs, entryDesyncs]
  have hevents : events (log ++ [(.drainGaps, .nothing)]) = events log := by
    simp [events, entryEvents]
  have hreturned : returned (log ++ [(.drainGaps, .nothing)]) = returned log := by
    simp [returned, entryDesyncs, entryEvents]
  constructor
  · rw [hemitted]; exact h₁
  · rw [hemitted]; exact h₂
  · rw [hemitted]; exact h₃
  · rw [howed, hevents, waiting_afterDrainGaps hphase hcond]; exact h₄
  · rw [hreturned]; exact h₅.append (desyncsOf_ascends ..)
  · exact fun g hg => by cases hg
  · exact fun ahead g behind hlist => by simp [afterDrainGaps] at hlist
  · rw [hdesyncs]
    exact fun d hd => (List.mem_append.mp hd).elim (h₈ d) fun hd => (hnew d hd).1
  · rw [hdesyncs, hemitted]
    exact fun d hd => (List.mem_append.mp hd).elim (h₉ d) fun hd => (hnew d hd).2

/-- A body whose poll, with `desyncs` in hand, has drained the events. -/
def afterDrainEvents (b : JavaBody) (desyncs : List Event) : JavaBody :=
  { b with
    client := { b.client with eventBuffer := [] }
    lastSeq := (eventsOf b.botName b.lastSeq b.client.eventBuffer).2
    phase := .idle
    eventLog := b.eventLog
      ++ (desyncs ++ (eventsOf b.botName b.lastSeq b.client.eventBuffer).1) }

theorem step_drainEvents {ds : List Event} (hphase : b.phase = .gapsDrained ds) :
    b.step encodedBytes .drainEvents
      = (.polled ds (eventsOf b.botName b.lastSeq b.client.eventBuffer).1,
          b.afterDrainEvents ds) := by
  simp only [step, hphase, JavaBodyClient.drainEvents, afterDrainEvents]

theorem Sound.drainEvents (h : Sound last log b) {ds : List Event}
    (hphase : b.phase = .gapsDrained ds) :
    Sound last (log ++ [(.drainEvents, (b.step encodedBytes .drainEvents).1)])
      (b.step encodedBytes .drainEvents).2 := by
  have hpending : pendingDesyncs b = ds := by simp [pendingDesyncs, hphase]
  obtain ⟨h₁, h₂, h₃, h₄, h₅, h₆, hgaps, h₈, h₉⟩ := h
  rw [hpending] at h₅ h₈ h₉
  have hloop := eventsOf_ascends b.botName b.lastSeq b.client.eventBuffer
  have hwaiting : (eventsOf b.botName b.lastSeq b.client.eventBuffer).1
      = (waiting b).map contractEvent := eventsOf_eq (h₁.sublist h₃.sublist)
  rw [step_drainEvents hphase]
  generalize hes : (eventsOf b.botName b.lastSeq b.client.eventBuffer).1 = es at *
  change Sound last (log ++ [(.drainEvents, .polled ds es)]) (b.afterDrainEvents ds)
  have hemitted : emitted (b.afterDrainEvents ds).botName
      (log ++ [(.drainEvents, .polled ds es)]) = emitted b.botName log := by
    simp [emitted, entryItems, items, afterDrainEvents]
  have howed : owed (b.afterDrainEvents ds).botName
      (log ++ [(.drainEvents, .polled ds es)]) = owed b.botName log := by
    simp [owed, entryOwed, afterDrainEvents]
  have hnone : waiting (b.afterDrainEvents ds) = [] := rfl
  have hdesyncs : desyncs (log ++ [(.drainEvents, .polled ds es)])
      ++ pendingDesyncs (b.afterDrainEvents ds) = desyncs log ++ ds := by
    simp [desyncs, entryDesyncs, pendingDesyncs, afterDrainEvents]
  have hevents : events (log ++ [(.drainEvents, .polled ds es)]) = events log ++ es := by
    simp [events, entryEvents]
  have hreturned : returned (log ++ [(.drainEvents, .polled ds es)])
      ++ pendingDesyncs (b.afterDrainEvents ds) = returned log ++ ds ++ es := by
    simp [returned, entryDesyncs, entryEvents, pendingDesyncs, afterDrainEvents]
  constructor
  · rw [hemitted]; exact h₁
  · rw [hemitted]; exact h₂
  · exact List.nil_suffix
  · rw [howed, hevents, hnone, h₄, hwaiting, List.map_nil, List.append_nil]
  · rw [hreturned]; exact h₅.append hloop
  · exact h₆
  · rw [hemitted]
    intro ahead g behind hlist hbot hlt
    have hlt' : b.lastSeq < g.toSeq := lt_of_le_of_lt hloop.le hlt
    rcases hgaps ahead g behind hlist hbot hlt' with hap | hover | ⟨-, e, he, heb, hle⟩
    · exact .inl hap
    · exact .inr (.inl hover)
    · have hreach := seq_le_eventsOf b.lastSeq he heb
      exact absurd hlt (not_lt.mpr (le_trans hle hreach))
  · rw [hdesyncs]; exact h₈
  · rw [hdesyncs, hemitted]; exact h₉

end Step

/-! ## Whole runs -/

section

variable {encodedBytes : JsonObject → Nat} {bot : String} {last : Int}
variable {log : BodyLog} {b : JavaBody}

theorem sound_start (bot : String) (last : Int) : Sound last [] (start bot last) where
  emitted_ascending := .nil
  emitted_le := by simp [emitted]
  buffered := List.nil_suffix
  accounted := rfl
  ascends := .nil last
  gaps_le := by simp [start]
  gaps_apart := by simp [start]
  desyncs_le := by simp [desyncs, pendingDesyncs, start]
  desyncs_apart := by simp [emitted]

/-- Sending the replay request seeds the cursor and leaves the buffers. -/
theorem sendResumeEvents_frame (c : JavaBodyClient) (afterSeq : Int) (bot : String) :
    c.protocol.lastSeq bot ≤ (c.sendResumeEvents afterSeq).2.protocol.lastSeq bot
      ∧ (c.sendResumeEvents afterSeq).2.eventGaps = c.eventGaps
      ∧ (c.sendResumeEvents afterSeq).2.eventBuffer = c.eventBuffer := by
  have hseed : c.protocol.lastSeq bot
      ≤ (c.protocol.seedLastSeq c.bot (max 0 afterSeq)).lastSeq bot := by
    rw [seedLastSeq_lastSeq]
    split
    · exact le_max_left _ _
    · exact le_rfl
  simp only [sendResumeEvents, resumeEvents, bind, Except.bind, pure, Except.pure]
  split
  · next hsent =>
      split at hsent
      · cases hsent
      · cases hsent
        exact ⟨hseed, rfl, rfl⟩
  · exact ⟨hseed, rfl, rfl⟩

theorem Sound.poll (h : Sound last log b) :
    Sound last (log ++ [(.poll, (b.step encodedBytes .poll).1)])
      (b.step encodedBytes .poll).2 := by
  by_cases hphase : b.phase = .idle
  · obtain ⟨hmark, hgaps, hbuffer⟩ := sendResumeEvents_frame b.client b.lastSeq b.botName
    simp only [JavaBody.step, hphase]
    split
    · next requestId client hsend =>
        rw [hsend] at hmark hgaps hbuffer
        exact h.quiet (.inl rfl) rfl hmark hgaps hbuffer rfl
          (by simp [pendingDesyncs, hphase]) fun ⟨_, hd⟩ => by rw [hphase] at hd; cases hd
    · next e client hsend =>
        rw [hsend] at hmark hgaps hbuffer
        exact h.quiet (.inr ⟨e, rfl⟩) rfl hmark hgaps hbuffer rfl
          (by simp [pendingDesyncs, hphase]) fun ⟨_, hd⟩ => by rw [hphase] at hd; cases hd
  · have hinert : b.step encodedBytes .poll = (.nothing, b) := by
      cases hp : b.phase <;> simp_all [JavaBody.step]
    rw [hinert]
    exact h.quiet (.inl rfl) rfl le_rfl rfl rfl rfl rfl id

theorem step_botName (b : JavaBody) (i : BodyInput) :
    (b.step encodedBytes i).2.botName = b.botName := by
  cases i with
  | poll => simp only [JavaBody.step]; repeat' split
            all_goals rfl
  | drainGaps => simp only [JavaBody.step]; split <;> rfl
  | drainEvents => simp only [JavaBody.step]; split <;> rfl
  | _ => rfl

theorem Sound.step (h : Sound last log b) {i : BodyInput}
    (hok : Accepted encodedBytes b i) (hbelow : GapsStayBelow b i)
    (hconc : ConcedesNothingEmitted log b i) :
    Sound last (log ++ [(i, (b.step encodedBytes i).1)]) (b.step encodedBytes i).2 := by
  cases i with
  | request requestType body => exact h.quiet (.inl rfl) rfl le_rfl rfl rfl rfl rfl id
  | frame message => exact h.frame hok hconc
  | poll => exact h.poll
  | drainGaps =>
      by_cases hphase : b.phase = .answered
      · exact h.drainGaps hphase hbelow
      · have hinert : b.step encodedBytes .drainGaps = (.nothing, b) := by
          cases hp : b.phase <;> simp_all [JavaBody.step]
        rw [hinert]
        exact h.quiet (.inl rfl) rfl le_rfl rfl rfl rfl rfl id
  | drainEvents =>
      by_cases hphase : ∃ ds, b.phase = .gapsDrained ds
      · obtain ⟨ds, hphase⟩ := hphase
        exact h.drainEvents hphase
      · have hinert : b.step encodedBytes .drainEvents = (.nothing, b) := by
          cases hp : b.phase <;> simp_all [JavaBody.step]
        rw [hinert]
        exact h.quiet (.inl rfl) rfl le_rfl rfl rfl rfl rfl id

/-- The condition under which a step of a body loses no event. -/
def KeepsEvents (log : BodyLog) (b : JavaBody) (i : BodyInput) : Prop :=
  GapsStayBelow b i ∧ ConcedesNothingEmitted log b i

theorem sound_of_run (h : BodyRun encodedBytes bot last KeepsEvents log b) :
    Sound last log b ∧ b.botName = bot := by
  refine h.invariant (P := fun log b => Sound last log b ∧ b.botName = bot)
    ⟨sound_start bot last, rfl⟩ ?_
  intro log b i _ ⟨hok, hbelow, hconc⟩ ⟨hsound, hbot⟩
  exact ⟨hsound.step hok hbelow hconc, by rw [step_botName]; exact hbot⟩

theorem owed_subset_emitted {e : BotEvent} (he : e ∈ owed bot log) : e ∈ emitted bot log := by
  obtain ⟨⟨i, o⟩, hentry, he⟩ := List.mem_flatMap.mp he
  refine List.mem_flatMap.mpr ⟨(i, o), hentry, ?_⟩
  unfold entryOwed at he
  split at he
  · next heq => cases heq; exact (List.mem_filter.mp he).1
  · cases he

theorem events_sublist_returned (log : BodyLog) :
    (events log).Sublist (returned log) := by
  induction log with
  | nil => exact .refl _
  | cons entry log ih =>
      exact (List.sublist_append_right _ _).append ih

theorem waiting_of_polled {cond : BodyLog → JavaBody → BodyInput → Prop}
    (h : BodyRun encodedBytes bot last cond log b) {pre : BodyLog} {ds es : List Event}
    (hlog : log = pre ++ [(.drainEvents, .polled ds es)]) : waiting b = [] := by
  cases h with
  | start => simp at hlog
  | @next log₁ b₁ i hrun hok =>
      obtain ⟨rfl, hentry⟩ := Prod.mk.inj (List.cons.inj (List.append_inj' hlog rfl).2).1
      by_cases hphase : ∃ ds, b₁.phase = .gapsDrained ds
      · obtain ⟨ds', hphase⟩ := hphase
        rw [step_drainEvents hphase]
        rfl
      · have hinert : b₁.step encodedBytes .drainEvents = (.nothing, b₁) := by
          cases hp : b₁.phase <;> simp_all [JavaBody.step]
        rw [hinert] at hentry
        cases hentry

theorem Sound.returned_once (h : Sound last log b) :
    ∀ e ∈ owed b.botName log,
      if e ∈ waiting b then contractEvent e ∉ events log
      else (events log).count (contractEvent e) = 1 := by
  have hasc := (List.pairwise_append.mp h.ascends.pairwise).1
  have hevents := hasc.sublist (events_sublist_returned log)
  have hnodup : (events log).Nodup := hevents.imp fun hlt heq => by
    rw [heq] at hlt; exact lt_irrefl _ hlt
  intro e he
  have hmem : contractEvent e ∈ events log ++ (waiting b).map contractEvent := by
    rw [← h.accounted]; exact List.mem_map_of_mem he
  split
  · next hwait =>
      intro hret
      have hle := h.ascends.below _ (List.mem_append_left _
        ((events_sublist_returned log).subset hret))
      have hnew : b.lastSeq < e.seq :=
        (of_decide_eq_true (List.mem_filter.mp hwait).2 : e.bot = b.botName ∧ _).2
      exact absurd hle (not_le.mpr hnew)
  · next hwait =>
      refine List.count_eq_one_of_mem hnodup ((List.mem_append.mp hmem).resolve_right ?_)
      intro hlater
      obtain ⟨e', he', hsame⟩ := List.mem_map.mp hlater
      have hemitted' : e' ∈ emitted b.botName log := by
        rw [waiting_eq] at he'
        exact h.buffered.subset (List.mem_filter.mp he').1
      have hmap : ((emitted b.botName log).map BotEvent.seq).Nodup :=
        List.pairwise_map.mpr (h.emitted_ascending.imp fun hlt => ne_of_lt hlt)
      have hseq : e'.seq = e.seq := congrArg Event.seq hsame
      exact hwait (List.inj_on_of_nodup_map hmap hemitted' (owed_subset_emitted he) hseq ▸ he')

/-- **A poll loses no event** in a run whose steps all keep events:
whatever the cursor had not reached when it was emitted comes out of
exactly one poll, in order, and no desync event speaks against it. -/
theorem poll_events_loses_nothing
    (h : BodyRun encodedBytes bot last KeepsEvents log b) : NoEventLost bot log b := by
  obtain ⟨hsound, rfl⟩ := sound_of_run h
  exact {
    returned_once := hsound.returned_once
    nothing_waits := fun pre ds es hlog => waiting_of_polled h hlog
    ascending := (List.pairwise_append.mp hsound.ascends.pairwise).1
    desyncs_apart := fun d hd => hsound.desyncs_apart d (List.mem_append_left _ hd) }

end

/-! ### A gap behind a waiting event -/

/-- A connected client is pushed event 1 and event `seq`, then polled. -/
def samplePoll (seq : Int) : List BodyInput :=
  [.request "HELLO" [], .frame helloAck, .frame (eventFrame "Bot1" 1 "chat"),
    .frame (eventFrame "Bot1" seq "chat"), .poll,
    .frame (resumeResult "r-2" "Bot1" none []), .drainGaps, .drainEvents]

/-- Events 1 and 5 are buffered with the gap 2..4 between them; the poll
returns the gap and event 5. -/
theorem run_gap_over_waiting_event :
    ∃ log b, BodyRun (fun _ => 0) "Bot1" 0 (fun _ _ _ => True) log b
      ∧ log.map Prod.fst = samplePoll 5
      ∧ owed "Bot1" log = [⟨"Bot1", 1, 0, "chat", none, []⟩, ⟨"Bot1", 5, 0, "chat", none, []⟩]
      ∧ events log = [⟨5, 0, "Bot1", "chat", []⟩] ∧ waiting b = [] :=
  ⟨_, _, Run.start.next (.request "HELLO" []) ⟨nofun, trivial⟩
    |>.next (.frame helloAck) ⟨fun _ h => by cases h; exact ⟨_, rfl⟩, trivial⟩
    |>.next (.frame (eventFrame "Bot1" 1 "chat"))
      ⟨fun _ h => by cases h; exact ⟨_, rfl⟩, trivial⟩
    |>.next (.frame (eventFrame "Bot1" 5 "chat"))
      ⟨fun _ h => by cases h; exact ⟨_, rfl⟩, trivial⟩
    |>.next .poll ⟨nofun, trivial⟩
    |>.next (.frame (resumeResult "r-2" "Bot1" none []))
      ⟨fun _ h => by cases h; exact ⟨_, rfl⟩, trivial⟩
    |>.next .drainGaps ⟨nofun, trivial⟩
    |>.next .drainEvents ⟨nofun, trivial⟩,
    rfl, rfl, rfl, rfl⟩

/-- Event 1 is then gone: it was owed, no poll returned it and nothing
waits any more. -/
theorem gap_drops_waiting_event :
    ∃ log b, BodyRun (fun _ => 0) "Bot1" 0 (fun _ _ _ => True) log b
      ∧ ¬ NoEventLost "Bot1" log b := by
  obtain ⟨log, b, hrun, -, howed, hevents, hwaiting⟩ := run_gap_over_waiting_event
  refine ⟨log, b, hrun, fun hno => ?_⟩
  have hfirst := hno.returned_once ⟨"Bot1", 1, 0, "chat", none, []⟩ (by rw [howed]; simp)
  rw [hwaiting, if_neg List.not_mem_nil, hevents] at hfirst
  exact absurd hfirst (by decide)

/-- `poll_events_loses_nothing` on a run without a gap. -/
theorem poll_returns_both :
    ∃ log b, BodyRun (fun _ => 0) "Bot1" 0 KeepsEvents log b
      ∧ log.map Prod.fst = samplePoll 2 ∧ NoEventLost "Bot1" log b := by
  have hrun : BodyRun (fun _ => 0) "Bot1" 0 KeepsEvents _ _ := Run.start
    |>.next (.request "HELLO" []) ⟨nofun, nofun, nofun⟩
    |>.next (.frame helloAck) ⟨fun _ h => by cases h; exact ⟨_, rfl⟩, nofun,
      fun _ _ h hc => by cases h; cases hc⟩
    |>.next (.frame (eventFrame "Bot1" 1 "chat"))
      ⟨fun _ h => by cases h; exact ⟨_, rfl⟩, nofun, fun _ _ h hc => by cases h; cases hc⟩
    |>.next (.frame (eventFrame "Bot1" 2 "chat"))
      ⟨fun _ h => by cases h; exact ⟨_, rfl⟩, nofun, fun _ _ h hc => by cases h; cases hc⟩
    |>.next .poll ⟨nofun, nofun, nofun⟩
    |>.next (.frame (resumeResult "r-2" "Bot1" none []))
      ⟨fun _ h => by cases h; exact ⟨_, rfl⟩, nofun, fun _ _ h hc => by cases h; cases hc⟩
    |>.next .drainGaps ⟨nofun, (fun _ _ g hg => by cases hg), nofun⟩
    |>.next .drainEvents ⟨nofun, nofun, nofun⟩
  exact ⟨_, _, hrun, rfl, poll_events_loses_nothing hrun⟩

end JavaBody

end MineBot
