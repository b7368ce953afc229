import Mathlib
import MineBot.Text

/-!
# The `fakeplayer-body/1` protocol core

`JavaBodyProtocol`, the sans-io state machine of one connection: request
construction, response correlation, capability negotiation and the
per-bot event sequence. A frame arrives as a decoded JSON value and
yields typed items in order; a frame that raises keeps whatever it had
already changed, as in the source, so the outcome is an `Except` beside
the state rather than inside it.

`encodedBytes` stands for the byte length of `json.dumps` of a value.
It is only ever compared with `maxTerminalBytes`.
-/

namespace MineBot

def protocolName : String := "fakeplayer-body/1"

def channelName : String := "fakeplayer-body"

def maxTerminalBytes : Nat := 256 * 1024

/-! ## What a frame yields -/

structure Response where
  requestId : String
  requestType : String
  type : String
  payload : JsonObject

structure ErrorResponse where
  requestId : Option String
  requestType : Option String
  code : String
  retryable : Bool
  payload : JsonObject

structure BotEvent where
  bot : String
  seq : Int
  tick : Int
  name : String
  actionId : Option String
  data : JsonObject
deriving DecidableEq

structure EventGap where
  bot : String
  fromSeq : Int
  toSeq : Int
deriving DecidableEq

structure ServerProposal where
  proposalId : String
  bot : String
  actionId : String
  kind : String
  x : Int
  y : Int
  z : Int
  blockId : String
  payload : JsonObject
  context : Option String

inductive Item where
  | response (r : Response)
  | error (r : ErrorResponse)
  | event (e : BotEvent)
  | gap (g : EventGap)
  | proposal (p : ServerProposal)

/-- What `feed` raises: the `ProtocolViolation`s, one constructor a
message, and the errors of a bare `int(x)`. -/
inductive FeedError where
  /-- frame must be a JSON object -/
  | frameNotObject
  /-- transport channel only carries ERROR frames -/
  | transportNotError
  /-- unexpected channel: ... -/
  | unexpectedChannel (channel : Option Json)
  /-- response frames need type and request_id -/
  | responseFields
  /-- response for unknown request_id ... -/
  | unknownRequestId (requestId : String)
  /-- ... answered by ... -/
  | answeredBy (requestType frameType : String)
  /-- action terminal must be a JSON object -/
  | terminalNotObject
  /-- action terminal exceeds ...-byte contract -/
  | terminalTooLarge
  /-- server speaks ..., need ... -/
  | serverSpeaks (protocol : Option Json)
  /-- HELLO_ACK request_types must be a string array -/
  | requestTypes
  /-- MUTATION_PROPOSAL needs proposal_id, bot, and mutation -/
  | proposalFields
  /-- MUTATION_PROPOSAL mutation needs kind and block_id -/
  | proposalMutation
  /-- MUTATION_PROPOSAL mutation needs integer coordinates -/
  | proposalCoordinates
  /-- ERROR frames need a string code -/
  | errorCode
  /-- RESUME_EVENTS_RESULT events must be an array -/
  | replayNotArray
  /-- replayed events must be objects -/
  | replayNotObject
  /-- EVENT frames need bot, integer seq, and event name -/
  | eventFields
  | int (e : IntError)
deriving DecidableEq

/-! ## The protocol state -/

structure Negotiated where
  maxRequestBytes : Int
  maxRequestsPerSecond : Int
  requestTypes : List String

/-- `_pending` and `_last_seq_by_bot` are only read by key, the latter
with default 0, so they are the functions their lookups compute. -/
structure JavaBodyProtocol where
  requestCounter : Nat
  pending : String → Option String
  lastSeqByBot : String → Int
  negotiated : Option Negotiated

/-- What `_require_capability` raises. -/
inductive CapabilityGap where
  /-- HELLO negotiation has not completed -/
  | notNegotiated
  /-- server does not offer ... -/
  | notOffered (requestType : String)

namespace JavaBodyProtocol

/-- `JavaBodyProtocol()`. -/
def fresh : JavaBodyProtocol where
  requestCounter := 0
  pending := fun _ => none
  lastSeqByBot := fun _ => 0
  negotiated := none

/-- `last_seq`. -/
def lastSeq (p : JavaBodyProtocol) (bot : String) : Int := p.lastSeqByBot bot

def setLastSeq (p : JavaBodyProtocol) (bot : String) (seq : Int) :
    JavaBodyProtocol :=
  { p with lastSeqByBot := Function.update p.lastSeqByBot bot seq }

/-- `seed_last_seq`. -/
def seedLastSeq (p : JavaBodyProtocol) (bot : String) (seq : Int) :
    JavaBodyProtocol :=
  p.setLastSeq bot (max (p.lastSeq bot) (max 0 seq))

@[simp] theorem lastSeq_fresh (bot : String) : fresh.lastSeq bot = 0 := rfl

@[simp] theorem lastSeq_setLastSeq_self (p : JavaBodyProtocol) (bot : String)
    (seq : Int) : (p.setLastSeq bot seq).lastSeq bot = seq := by
  simp [lastSeq, setLastSeq]

theorem lastSeq_setLastSeq_of_ne (p : JavaBodyProtocol) {bot bot' : String}
    (h : bot' ≠ bot) (seq : Int) :
    (p.setLastSeq bot seq).lastSeq bot' = p.lastSeq bot' := by
  simp [lastSeq, setLastSeq, h]

/-! ## Requests -/

def requireCapability (p : JavaBodyProtocol) (requestType : String) :
    Except CapabilityGap Unit :=
  match p.negotiated with
  | none => .error .notNegotiated
  | some n =>
      if requestType ∈ n.requestTypes then .ok () else .error (.notOffered requestType)

/-- `_request`: the envelope, with the body's entries assigned over it,
registered under a new request id. -/
def request (p : JavaBodyProtocol) (requestType : String) (body : JsonObject) :
    JsonObject × JavaBodyProtocol :=
  let counter := p.requestCounter + 1
  let requestId := s!"r-{counter}"
  let envelope : JsonObject :=
    [("channel", .str channelName), ("protocol", .str protocolName),
      ("type", .str requestType), ("request_id", .str requestId)]
  (envelope.update body,
    { p with
      requestCounter := counter
      pending := Function.update p.pending requestId (some requestType) })

def hello (p : JavaBodyProtocol) (subscribeEvents : Bool) :
    JsonObject × JavaBodyProtocol :=
  p.request "HELLO"
    (if subscribeEvents then [] else [("subscribe_events", .bool false)])

def setSurvivalOwner (p : JavaBodyProtocol) (botName : String) (enabled : Bool) :
    Except CapabilityGap (JsonObject × JavaBodyProtocol) := do
  p.requireCapability "SET_SURVIVAL_OWNER"
  return p.request "SET_SURVIVAL_OWNER"
    [("bot_name", .str botName), ("enabled", .bool enabled)]

def resumeEvents (p : JavaBodyProtocol) (botName : String) (afterSeq : Int) :
    Except CapabilityGap (JsonObject × JavaBodyProtocol) := do
  p.requireCapability "RESUME_EVENTS"
  return p.request "RESUME_EVENTS"
    [("bot_name", .str botName), ("after_seq", .int afterSeq)]

/-! ## Events -/

/-- `_sequence_event`. -/
def sequenceEvent (p : JavaBodyProtocol) (event : BotEvent) :
    List Item × JavaBodyProtocol :=
  let last := p.lastSeq event.bot
  if event.seq ≤ last then ([], p)
  else
    ((if last + 1 < event.seq then [.gap ⟨event.bot, last + 1, event.seq - 1⟩]
        else []) ++ [.event event],
      p.setLastSeq event.bot event.seq)

section Feed

variable (encodedBytes : JsonObject → Nat)

/-- `_validate_terminal_envelope`. -/
def validateTerminalEnvelope : Json → Except FeedError Unit
  | .obj terminal =>
      if encodedBytes terminal ≤ maxTerminalBytes then .ok ()
      else .error .terminalTooLarge
  | _ => .error .terminalNotObject

/-- A string field of an object. -/
def str? (o : JsonObject) (key : String) : Option String :=
  match o.get? key with
  | some (.str s) => some s
  | _ => none

/-- `_parse_event`. -/
def parseEvent (message : JsonObject) : Except FeedError BotEvent := do
  match str? message "bot", (message.get? "seq").bind Json.isInt?, str? message "event" with
  | some bot, some seq, some name =>
      let data := match message.get? "data" with
        | some (.obj data) => data
        | _ => []
      if name = "action_terminal" then
        validateTerminalEnvelope encodedBytes (.obj data)
      return {
        bot := bot
        seq := seq
        tick := ((message.get? "tick").bind Json.isInt?).getD 0
        name := name
        actionId := str? message "action_id"
        data := data }
  | _, _, _ => .error .eventFields

/-- The loop of `_ingest_replay` over the replayed events. -/
def sequenceReplayed (p : JavaBodyProtocol) :
    List Json → Except FeedError (List Item) × JavaBodyProtocol
  | [] => (.ok [], p)
  | .obj raw :: rest =>
      match parseEvent encodedBytes raw with
      | .error e => (.error e, p)
      | .ok event =>
          let (items, p₁) := p.sequenceEvent event
          match sequenceReplayed p₁ rest with
          | (.error e, p₂) => (.error e, p₂)
          | (.ok more, p₂) => (.ok (items ++ more), p₂)
  | _ :: _ => (.error .replayNotObject, p)

/-- The gap a `RESUME_EVENTS_RESULT` reports, if it carries one. -/
def replayGap? (message : JsonObject) : Except FeedError (Option EventGap) :=
  match message.get? "event_gap", str? message "bot" with
  | some (.obj gap), some bot =>
      match pyInt ((Dict.get? gap "from").getD (.int 0)),
          pyInt ((Dict.get? gap "to").getD (.int 0)) with
      | .ok fromSeq, .ok toSeq => .ok (some ⟨bot, fromSeq, toSeq⟩)
      | .error e, _ => .error (.int e)
      | _, .error e => .error (.int e)
  | _, _ => .ok none

/-- The items and the state a reported gap leaves behind. -/
def takeGap (p : JavaBodyProtocol) : Option EventGap → List Item × JavaBodyProtocol
  | some gap =>
      ([.gap gap], p.setLastSeq gap.bot (max (p.lastSeq gap.bot) gap.toSeq))
  | none => ([], p)

/-- `_ingest_replay`. -/
def ingestReplay (p : JavaBodyProtocol) (message : JsonObject) :
    Except FeedError (List Item) × JavaBodyProtocol :=
  match replayGap? message with
  | .error e => (.error e, p)
  | .ok gap =>
      let (items, p₁) := p.takeGap gap
      match message.get? "events" with
      | some (.arr events) =>
          match p₁.sequenceReplayed encodedBytes events with
          | (.error e, p₂) => (.error e, p₂)
          | (.ok more, p₂) => (.ok (items ++ more), p₂)
      | _ => (.error .replayNotArray, p₁)

/-! ## Frames -/

/-- The response each request type is answered by. Acknowledgement
shaped responses are not `_RESULT`: accepting an action is never its
terminal result. -/
def expectedType (requestType : String) : String :=
  if requestType ∈ ["HELLO", "NAVIGATE", "COLLECT_BLOCK", "DIG_DOWN", "ASCEND",
      "FOLLOW_ENTITY", "ENGAGE_ENTITY", "PLAYER_ACTION", "CONTAINER_TRANSFER",
      "CRAFT_ITEM", "FURNACE_TRANSFER"] then requestType ++ "_ACK"
  else requestType ++ "_RESULT"

/-- The strings of a JSON array of strings. -/
def stringArray? : Json → Option (List String)
  | .arr xs => xs.mapM fun
      | .str s => some s
      | _ => none
  | _ => none

/-- `_accept_hello`. -/
def acceptHello (p : JavaBodyProtocol) (message : JsonObject) :
    Except FeedError JavaBodyProtocol := do
  if message.get? "protocol" ≠ some (.str protocolName) then
    throw (.serverSpeaks (message.get? "protocol"))
  match (message.get? "request_types").bind stringArray? with
  | none => throw .requestTypes
  | some requestTypes =>
      let bytes ← (pyInt ((message.get? "max_request_bytes").getD (.int 0))).mapError .int
      let rate ← (pyInt ((message.get? "max_requests_per_second").getD (.int 0))).mapError .int
      return { p with negotiated := some ⟨bytes, rate, requestTypes⟩ }

/-- `_feed_proposal`. -/
def feedProposal (message : JsonObject) : Except FeedError ServerProposal :=
  match str? message "proposal_id", str? message "bot", message.get? "mutation" with
  | some proposalId, some bot, some (.obj mutation) =>
      match str? mutation "kind", str? mutation "block_id" with
      | some kind, some blockId =>
          match (Dict.get? mutation "x").map pyInt, (Dict.get? mutation "y").map pyInt,
              (Dict.get? mutation "z").map pyInt with
          | some (.ok x), some (.ok y), some (.ok z) =>
              .ok {
                proposalId := proposalId
                bot := bot
                actionId := (str? message "action_id").getD ""
                kind := kind
                x := x
                y := y
                z := z
                blockId := blockId
                payload := message
                context := str? mutation "context" }
          | _, _, _ => .error .proposalCoordinates
      | _, _ => .error .proposalMutation
  | _, _, _ => .error .proposalFields

/-- `self._pending.pop(request_id, None)`. -/
def popPending (p : JavaBodyProtocol) (requestId : String) :
    Option String × JavaBodyProtocol :=
  (p.pending requestId, { p with pending := Function.update p.pending requestId none })

/-- `_feed_error`. -/
def feedError (p : JavaBodyProtocol) (message : JsonObject) :
    Except FeedError ErrorResponse × JavaBodyProtocol :=
  let (requestId, requestType, p₁) := match str? message "request_id" with
    | some requestId => (some requestId, p.popPending requestId)
    | none => (none, none, p)
  match str? message "code" with
  | some code =>
      (.ok {
        requestId := requestId
        requestType := requestType
        code := code
        retryable := ((message.get? "retryable").getD (.bool false)).truthy
        payload := message }, p₁)
  | none => (.error .errorCode, p₁)

/-- `_feed_response`. -/
def feedResponse (p : JavaBodyProtocol) (message : JsonObject) :
    Except FeedError (List Item) × JavaBodyProtocol :=
  match str? message "type", str? message "request_id" with
  | some frameType, some requestId =>
      match p.popPending requestId with
      | (none, p₁) => (.error (.unknownRequestId requestId), p₁)
      | (some requestType, p₁) =>
          if frameType ≠ expectedType requestType then
            (.error (.answeredBy requestType frameType), p₁)
          else
            let terminal := (message.get? "terminal").getD .null
            match if terminal = .null then .ok ()
                else validateTerminalEnvelope encodedBytes terminal with
            | .error e => (.error e, p₁)
            | .ok () =>
                let response :=
                  Item.response ⟨requestId, requestType, frameType, message⟩
                if frameType = "HELLO_ACK" then
                  match p₁.acceptHello message with
                  | .error e => (.error e, p₁)
                  | .ok p₂ => (.ok [response], p₂)
                else if frameType = "RESUME_EVENTS_RESULT" then
                  match p₁.ingestReplay encodedBytes message with
                  | (.error e, p₂) => (.error e, p₂)
                  | (.ok items, p₂) => (.ok (response :: items), p₂)
                else (.ok [response], p₁)
  | _, _ => (.error .responseFields, p)

/-- `feed` of a frame that is an object. -/
def feedObject (p : JavaBodyProtocol) (message : JsonObject) :
    Except FeedError (List Item) × JavaBodyProtocol :=
  if str? message "channel" = some "transport" then
    -- transport-level errors carry no application channel
    if str? message "type" ≠ some "ERROR" then (.error .transportNotError, p)
    else
      let (r, p₁) := p.feedError message
      (r.map fun e => [.error e], p₁)
  else if str? message "channel" ≠ some channelName then
    (.error (.unexpectedChannel (message.get? "channel")), p)
  else match str? message "type" with
  | some "EVENT" =>
      match parseEvent encodedBytes message with
      | .error e => (.error e, p)
      | .ok event =>
          let (items, p₁) := p.sequenceEvent event
          (.ok items, p₁)
  | some "ERROR" =>
      let (r, p₁) := p.feedError message
      (r.map fun e => [.error e], p₁)
  | some "MUTATION_PROPOSAL" =>
      ((feedProposal message).map fun proposal => [.proposal proposal], p)
  | _ => p.feedResponse encodedBytes message

/-- `feed`. -/
def feed (p : JavaBodyProtocol) : Json → Except FeedError (List Item) × JavaBodyProtocol
  | .obj message => p.feedObject encodedBytes message
  | _ => (.error .frameNotObject, p)

end Feed

end JavaBodyProtocol

end MineBot
