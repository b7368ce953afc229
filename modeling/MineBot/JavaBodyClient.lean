import MineBot.EventSequence

/-!
# Polling the Body's events

`JavaBodyClient` pumps frames through the protocol and keeps what comes
out in two buffers, one for events and one for gaps. `JavaBody`
polls: it asks for a replay, waits for the answer, then drains first the
gaps and then the events, and advances its own cursor `last_seq` over
both. Frames may be pumped between any two of these steps, the last two
included: only each drain by itself holds the client's lock.

One connection is modelled, so a transport that closes under the poll is
outside. The governance hooks of `_pump_once` do not touch the state
kept here.
-/

namespace MineBot

open JavaBodyProtocol HighWater

/-! ## The client -/

structure JavaBodyClient where
  bot : String
  protocol : JavaBodyProtocol
  eventGaps : List EventGap
  eventBuffer : List BotEvent

namespace JavaBodyClient

def gapOf? : Item → Option EventGap
  | .gap gap => some gap
  | _ => none

def eventOf? : Item → Option BotEvent
  | .event event => some event
  | _ => none

/-- What `_pump_once` hands on: proposals are answered and gaps buffered
instead. -/
def handedOn : Item → Bool
  | .proposal _ => false
  | .gap _ => false
  | _ => true

/-- `_pump_once`. -/
def pumpOnce (encodedBytes : JsonObject → Nat) (c : JavaBodyClient) (frame : Json) :
    Except FeedError (List Item) × JavaBodyClient :=
  match c.protocol.feed encodedBytes frame with
  | (.error e, p) => (.error e, { c with protocol := p })
  | (.ok items, p) =>
      (.ok (items.filter handedOn), { c with
        protocol := p
        eventGaps := c.eventGaps ++ items.filterMap gapOf?
        eventBuffer := c.eventBuffer ++ items.filterMap eventOf? })

/-- The request half of `resume_events`: the cursor is seeded and the
request sent, under the id that `_await_response` waits for. -/
def sendResumeEvents (c : JavaBodyClient) (afterSeq : Int) :
    Except CapabilityGap String × JavaBodyClient :=
  let cursor := max 0 afterSeq
  let seeded := c.protocol.seedLastSeq c.bot cursor
  match seeded.resumeEvents c.bot cursor with
  | .ok (message, p) =>
      (.ok ((str? message "request_id").getD ""), { c with protocol := p })
  | .error e => (.error e, { c with protocol := seeded })

/-- `drain_events`. -/
def drainEvents (c : JavaBodyClient) : List BotEvent × JavaBodyClient :=
  (c.eventBuffer, { c with eventBuffer := [] })

/-- `drain_event_gaps`. -/
def drainEventGaps (c : JavaBodyClient) : List EventGap × JavaBodyClient :=
  (c.eventGaps, { c with eventGaps := [] })

/-- How `_await_response` sees one item: the response or the error that
ends the wait for `requestId`, or neither. -/
def answers (requestId : String) : Item → Option Bool
  | .response r => if r.requestId = requestId then some true else none
  | .error r =>
      if r.requestId = none ∨ r.requestId = some requestId then some false else none
  | _ => none

/-- The verdict of the first item that ends the wait. -/
def awaited (requestId : String) (items : List Item) : Option Bool :=
  items.findSome? (answers requestId)

end JavaBodyClient

/-! ## The body -/

/-- `contract.Event`. -/
structure Event where
  seq : Int
  tick : Int
  bot : String
  name : String
  data : JsonObject
deriving DecidableEq

/-- Where `poll_events` stands between two of its steps. -/
inductive PollPhase where
  | idle
  | awaiting (requestId : String)
  | answered
  | gapsDrained (desyncs : List Event)

/-- `JavaBody`, with the poll that is under way. -/
structure JavaBody where
  botName : String
  client : JavaBodyClient
  lastSeq : Int
  eventLog : List Event
  phase : PollPhase

namespace JavaBody

/-- A body that has not polled yet; `last_seq` may come from an earlier
process. -/
def start (bot : String) (lastSeq : Int) : JavaBody where
  botName := bot
  client := ⟨bot, fresh, [], []⟩
  lastSeq := lastSeq
  eventLog := []
  phase := .idle

/-- `_contract_event`. -/
def contractEvent (item : BotEvent) : Event where
  seq := item.seq
  tick := item.tick
  bot := item.bot
  name := item.name
  data := match item.actionId with
    | some actionId =>
        if item.data.get? "action_id" = none then
          item.data.set "action_id" (.str actionId)
        else item.data
    | none => item.data

def desyncEvent (bot : String) (lastSeq : Int) (gap : EventGap) : Event where
  seq := max (lastSeq + 1) gap.toSeq
  tick := 0
  bot := bot
  name := "desync"
  data := [("expected_seq", .int gap.fromSeq), ("observed_seq", .int (gap.toSeq + 1))]

/-- The first loop of `poll_events`, with the cursor it leaves. -/
def desyncsOf (bot : String) (lastSeq : Int) : List EventGap → List Event × Int
  | [] => ([], lastSeq)
  | gap :: gaps =>
      if gap.bot ≠ bot ∨ gap.toSeq ≤ lastSeq then desyncsOf bot lastSeq gaps
      else
        let (rest, last) := desyncsOf bot (max lastSeq gap.toSeq) gaps
        (desyncEvent bot lastSeq gap :: rest, last)

/-- The second loop. -/
def eventsOf (bot : String) (lastSeq : Int) : List BotEvent → List Event × Int
  | [] => ([], lastSeq)
  | item :: items =>
      if item.bot ≠ bot ∨ item.seq ≤ lastSeq then eventsOf bot lastSeq items
      else
        let (rest, last) := eventsOf bot item.seq items
        (contractEvent item :: rest, last)

/-! ## Steps -/

/-- What happens to a body: another request of its client, a frame
pumped, the next step of the poll. -/
inductive BodyInput where
  | request (requestType : String) (body : JsonObject)
  | frame (message : Json)
  | poll
  | drainGaps
  | drainEvents

/-- What a step shows: the items of a frame with the cursor they met,
what a poll returned, its two loops apart. -/
inductive BodyOutput where
  | nothing
  | fed (result : Except FeedError (List Item)) (lastSeq : Int)
  | refused (e : CapabilityGap)
  | polled (desyncs events : List Event)

/-- The phase after a frame whose items were handed on. -/
def phaseAfter (phase : PollPhase) (result : Except FeedError (List Item)) : PollPhase :=
  match phase, result with
  | .awaiting requestId, .ok items =>
      match JavaBodyClient.awaited requestId items with
      | some true => .answered
      | some false => .idle    -- an `ErrorResponse`: the poll raises
      | none => .awaiting requestId
  | phase, _ => phase

def step (encodedBytes : JsonObject → Nat) (b : JavaBody) :
    BodyInput → BodyOutput × JavaBody
  | .request requestType body =>
      (.nothing, { b with client := { b.client with
        protocol := (b.client.protocol.request requestType body).2 } })
  | .frame message =>
      let (result, client) := b.client.pumpOnce encodedBytes message
      (.fed (b.client.protocol.feed encodedBytes message).1 b.lastSeq,
        { b with client := client, phase := phaseAfter b.phase result })
  | .poll =>
      match b.phase with
      | .idle =>
          match b.client.sendResumeEvents b.lastSeq with
          | (.ok requestId, client) =>
              (.nothing, { b with client := client, phase := .awaiting requestId })
          | (.error e, client) => (.refused e, { b with client := client })
      | _ => (.nothing, b)
  | .drainGaps =>
      match b.phase with
      | .answered =>
          let (gaps, client) := b.client.drainEventGaps
          let (desyncs, last) := desyncsOf b.botName b.lastSeq gaps
          (.nothing, { b with
            client := client, lastSeq := last, phase := .gapsDrained desyncs })
      | _ => (.nothing, b)
  | .drainEvents =>
      match b.phase with
      | .gapsDrained desyncs =>
          let (items, client) := b.client.drainEvents
          let (events, last) := eventsOf b.botName b.lastSeq items
          (.polled desyncs events, { b with
            client := client, lastSeq := last, phase := .idle
            eventLog := b.eventLog ++ (desyncs ++ events) })
      | _ => (.nothing, b)

end JavaBody

end MineBot
