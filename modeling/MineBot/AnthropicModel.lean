import MineBot.Json

/-!
# The Anthropic adapter's two decoders

`_chat_completion` reads a whole Anthropic message, `_chat_stream` the
server-sent events of one. Both speak the chat-completion format: the first
makes a `ChatCompletion`, the second the chunks of one. What is modelled is
the value each hands to `model_validate`, less the time of creation.

What Python makes of a value outside the format - `str` of a list, `int` of a
text - and the `json` module are the parameter `Python`.
-/

namespace MineBot

namespace Anthropic

/-! ## Values -/

/-- What the language and its `json` make of values. -/
structure Python where
  /-- `str` of a float, a list or a mapping -/
  repr : Json → String
  /-- `int` of a value that is no integer; `none` where it raises -/
  toInt : Json → Option Int
  /-- `json.dumps(value, ensure_ascii=False)` -/
  dumps : Json → String
  /-- `json.loads`; `none` where it raises -/
  loads : String → Option Json

section Values

variable (py : Python)

/-- `str(value)`. -/
def pyStr : Json → String
  | .str text => text
  | .null => "None"
  | .bool b => if b then "True" else "False"
  | .int n => toString n
  | value => py.repr value

/-- `str(object.get(key) or default)`. -/
def strOr (object : JsonObject) (key default : String) : String :=
  match object.get? key with
  | some value => if value.truthy then pyStr py value else default
  | none => default

/-- `int(event.get("index") or 0)`. -/
def indexOf (event : JsonObject) : Option Int :=
  match event.get? "index" with
  | some value =>
      if value.truthy then
        match value with
        | .int n => some n
        | value => py.toInt value
      else some 0
  | none => some 0

/-- `object.get(key) or {}`. -/
def objectOr (object : JsonObject) (key : String) : Json :=
  match object.get? key with
  | some value => if value.truthy then value else .obj []
  | none => .obj []

/-- `object.get(key) if isinstance(object, Mapping) else None`, and the test
that the result is a mapping. -/
def mapping (object : JsonObject) (key : String) : Option JsonObject :=
  match object.get? key with
  | some (.obj fields) => some fields
  | _ => none

end Values

/-! ## Usage -/

/-- `_count`. -/
def count : Option Json → Nat
  | some (.int n) => n.toNat
  | _ => 0

/-- `_AnthropicUsage`. -/
structure AnthropicUsage where
  input : Nat
  cacheRead : Nat
  cacheWrite : Nat
  output : Nat
deriving DecidableEq

namespace AnthropicUsage

/-- `_AnthropicUsage()`. -/
def zero : AnthropicUsage := ⟨0, 0, 0, 0⟩

/-- `_cache_write`. -/
def cacheWriteOf (raw : JsonObject) : Nat :=
  match raw.get? "cache_creation_input_tokens" with
  | none | some .null =>
      match mapping raw "cache_creation" with
      | some breakdown => (breakdown.map fun field => count (some field.2)).sum
      | none => 0
  | some tokens => count (some tokens)

/-- The counters of one report. -/
def read (raw : Option Json) : AnthropicUsage :=
  match raw with
  | some (.obj raw) =>
      { input := count (Dict.get? raw "input_tokens")
        cacheRead := count (Dict.get? raw "cache_read_input_tokens")
        cacheWrite := cacheWriteOf raw
        output := count (Dict.get? raw "output_tokens") }
  | _ => zero

/-- Counter by counter, the larger one. -/
def merge (u v : AnthropicUsage) : AnthropicUsage where
  input := max u.input v.input
  cacheRead := max u.cacheRead v.cacheRead
  cacheWrite := max u.cacheWrite v.cacheWrite
  output := max u.output v.output

/-- `update`: a report that is no mapping counts nothing. -/
def update (u : AnthropicUsage) (raw : Option Json) : AnthropicUsage := u.merge (read raw)

def promptTokens (u : AnthropicUsage) : Nat := u.input + u.cacheRead + u.cacheWrite

end AnthropicUsage

/-- `_completion_usage`. -/
structure CompletionUsage where
  promptTokens : Nat
  completionTokens : Nat
  totalTokens : Nat
  cachedTokens : Nat
deriving DecidableEq

def completionUsage (usage : AnthropicUsage) : CompletionUsage where
  promptTokens := usage.promptTokens
  completionTokens := usage.output
  totalTokens := usage.promptTokens + usage.output
  cachedTokens := usage.cacheRead

section Decoders

variable (py : Python)

/-- `_finish_reason`. -/
def finishReason (value : Option Json) : Option String :=
  match pyStr py (value.getD .null) with
  | "tool_use" => some "tool_calls"
  | "end_turn" => some "stop"
  | "stop_sequence" => some "stop"
  | "max_tokens" => some "length"
  | _ => none

/-! ## The whole message -/

structure ToolCall where
  id : String
  name : String
  arguments : String
deriving DecidableEq

/-- What `_chat_completion` gives to `ChatCompletion.model_validate`. -/
structure Completion where
  id : String
  model : String
  content : Option String
  toolCalls : List ToolCall
  finishReason : Option String
  usage : CompletionUsage
deriving DecidableEq

/-- `raw.get("content") or []`, as it is iterated: a text and the keys of a
mapping give no blocks; `none` where iterating raises. -/
def contentOf (raw : JsonObject) : Option (List Json) :=
  match raw.get? "content" with
  | none | some .null => some []
  | some (.arr blocks) => some blocks
  | some (.str _) | some (.obj _) => some []
  | some value => if value.truthy then none else some []

/-- The loop over the blocks, from the text parts and tool calls so far. -/
def readBlocks : List Json → List String × List ToolCall → List String × List ToolCall
  | [], parts => parts
  | .obj block :: blocks, (texts, calls) =>
      match Dict.get? block "type" with
      | some (.str "text") => readBlocks blocks (texts ++ [strOr py block "text" ""], calls)
      | some (.str "tool_use") =>
          readBlocks blocks (texts, calls ++ [
            { id := strOr py block "id" s!"tool_{calls.length}"
              name := strOr py block "name" "tool"
              arguments := py.dumps (objectOr block "input") }])
      | _ => readBlocks blocks (texts, calls)
  | _ :: blocks, parts => readBlocks blocks parts

/-- `_chat_completion`; `none` where it raises. -/
def chatCompletion (selfModel : String) (raw : JsonObject) : Option Completion :=
  (contentOf raw).map fun content =>
    let (texts, calls) := readBlocks py content ([], [])
    let text := String.join texts
    { id := strOr py raw "id" "anthropic-response"
      model := strOr py raw "model" selfModel
      content := if text = "" then none else some text
      toolCalls := calls
      finishReason := finishReason py (raw.get? "stop_reason")
      usage := completionUsage (AnthropicUsage.zero.update (raw.get? "usage")) }

/-! ## The stream -/

/-- An entry of `delta["tool_calls"]`. -/
structure CallDelta where
  index : Nat
  id : Option String
  name : Option String
  arguments : String
deriving DecidableEq

/-- What `_chunk` gives to `ChatCompletionChunk.model_validate`. -/
structure Chunk where
  id : String
  model : String
  role : Option String
  content : Option String
  toolCalls : List CallDelta
  finishReason : Option String
  usage : Option CompletionUsage
deriving DecidableEq

inductive StreamError where
  /-- `AnthropicAPIError(f"Anthropic stream failed: {kind}")` -/
  | failed (kind : Json)
  /-- what `int` raises -/
  | notAnIndex
deriving DecidableEq

/-- An event of the stream: its name and its payload. -/
abbrev Event := String × JsonObject

/-- The locals of `_chat_stream`, with the usage it was handed. -/
structure StreamState where
  messageId : String
  model : String
  toolIndexes : Dict Int Nat
  nextToolIndex : Nat
  finished : Bool
  usage : AnthropicUsage
deriving DecidableEq

def StreamState.new (selfModel : String) : StreamState :=
  ⟨"anthropic-response", selfModel, [], 0, false, .zero⟩

namespace StreamState

/-- `_chunk`, with nothing in the delta. -/
def chunk (s : StreamState) : Chunk := ⟨s.messageId, s.model, none, none, [], none, none⟩

/-- `tool_indexes.setdefault(source_index, next_tool_index)`, and the next
index after it. -/
def toolIndex (s : StreamState) (sourceIndex : Int) : Nat × StreamState :=
  match s.toolIndexes.get? sourceIndex with
  | some index => (index, { s with nextToolIndex := max s.nextToolIndex (index + 1) })
  | none =>
      (s.nextToolIndex, { s with
        toolIndexes := s.toolIndexes.set sourceIndex s.nextToolIndex
        nextToolIndex := s.nextToolIndex + 1 })

end StreamState

def messageStart (s : StreamState) (event : JsonObject) : List Chunk × StreamState :=
  let s := match mapping event "message" with
    | some message => { s with
        messageId := strOr py message "id" s.messageId
        model := strOr py message "model" s.model
        usage := s.usage.update (message.get? "usage") }
    | none => s
  ([{ s.chunk with role := some "assistant" }], s)

def contentBlockStart (s : StreamState) (event : JsonObject) :
    Except StreamError (List Chunk × StreamState) :=
  match mapping event "content_block" with
  | none => .ok ([], s)
  | some block =>
      if block.get? "type" ≠ some (.str "tool_use") then .ok ([], s)
      else match indexOf py event with
        | none => .error .notAnIndex
        | some sourceIndex =>
            let (toolIndex, s) := s.toolIndex sourceIndex
            let initial := objectOr block "input"
            .ok ([{ s.chunk with toolCalls := [
              { index := toolIndex
                id := some (strOr py block "id" s!"tool_{toolIndex}")
                name := some (strOr py block "name" "tool")
                arguments := if initial.truthy then py.dumps initial else "" }] }], s)

def contentBlockDelta (s : StreamState) (event : JsonObject) :
    Except StreamError (List Chunk × StreamState) :=
  match mapping event "delta" with
  | none => .ok ([], s)
  | some delta =>
      match delta.get? "type" with
      | some (.str "text_delta") =>
          .ok ([{ s.chunk with content := some (strOr py delta "text" "") }], s)
      | some (.str "input_json_delta") =>
          match indexOf py event with
          | none => .error .notAnIndex
          | some sourceIndex =>
              let (toolIndex, s) := s.toolIndex sourceIndex
              .ok ([{ s.chunk with toolCalls :=
                [⟨toolIndex, none, none, strOr py delta "partial_json" ""⟩] }], s)
      | _ => .ok ([], s)

def messageDelta (s : StreamState) (event : JsonObject) : List Chunk × StreamState :=
  let s := { s with usage := s.usage.update (event.get? "usage") }
  let stopReason := (mapping event "delta").bind fun delta => delta.get? "stop_reason"
  match finishReason py stopReason with
  | none => ([], s)
  | some finish =>
      let s := { s with finished := true }
      ([{ s.chunk with finishReason := some finish, usage := some (completionUsage s.usage) }], s)

def messageStop (s : StreamState) : List Chunk × StreamState :=
  if s.finished then ([], s)
  else
    let s := { s with finished := true }
    ([{ s.chunk with finishReason := some "stop", usage := some (completionUsage s.usage) }], s)

/-- One turn of the loop over the events. -/
def feed (s : StreamState) (event : Event) : Except StreamError (List Chunk × StreamState) :=
  match event.1 with
  | "error" =>
      .error (.failed (match mapping event.2 "error" with
        | some error => (error.get? "type").getD .null
        | none => .str "api_error"))
  | "message_start" => .ok (messageStart py s event.2)
  | "content_block_start" => contentBlockStart py s event.2
  | "content_block_delta" => contentBlockDelta py s event.2
  | "message_delta" => .ok (messageDelta py s event.2)
  | "message_stop" => .ok (messageStop s)
  | _ => .ok ([], s)

/-- The loop over the events: the chunks, and what it raised or where it
stands. -/
def feedAll : StreamState → List Event → List Chunk × Except StreamError StreamState
  | s, [] => ([], .ok s)
  | s, event :: events =>
      match feed py s event with
      | .error e => ([], .error e)
      | .ok (chunks, s) =>
          let (rest, outcome) := feedAll s events
          (chunks ++ rest, outcome)

/-- `_chat_stream`: the chunks it yields, and what it raises. -/
def chatStream (selfModel : String) (events : List Event) : List Chunk × Option StreamError :=
  match feedAll py (.new selfModel) events with
  | (chunks, .ok _) => (chunks, none)
  | (chunks, .error e) => (chunks, some e)

end Decoders

end Anthropic

end MineBot
