import Mathlib
import MineBot.AnthropicModel
import MineBot.Interleaving

/-!
# Streamed and whole answers agree

One decoder keeps index maps and partial texts over events, the other walks
the blocks of the finished message. They agree on every message as long as the
stream opens its tool calls in block order and its text deltas come in block
order: a chunk's text has no index, and tool calls are numbered as they open.
Tool input may interleave with anything.

- `feedAll_parts`: what the events of the blocks yield.
- `calls_of_deltas`: the calls those chunks assemble to.
- `stream_agrees`: the two answers, assembled.
-/

namespace MineBot

namespace Anthropic

open Interleaving

/-! ## Messages and their streams -/

/-- A `text` or a `tool_use` block. -/
inductive Block where
  | text (text : String)
  | toolUse (id name : String) (input : JsonObject)

def Block.raw : Block → Json
  | .text content => .obj [("type", .str "text"), ("text", .str content)]
  | .toolUse id name input =>
      .obj [("type", .str "tool_use"), ("id", .str id), ("name", .str name), ("input", .obj input)]

structure Message where
  id : String
  model : String
  content : List Block
  stopReason : Option String
  usage : Json

/-- A text, or `null`. -/
def textOrNull : Option String → Json
  | some text => .str text
  | none => .null

def Message.raw (message : Message) : JsonObject :=
  [("id", .str message.id), ("type", .str "message"), ("role", .str "assistant"),
    ("model", .str message.model), ("content", .arr (message.content.map Block.raw)),
    ("stop_reason", textOrNull message.stopReason), ("usage", message.usage)]

/-- What the stream says of a block. -/
inductive Part where
  | start (block : Block)
  | text (piece : String)
  | json (piece : String)
  | stop

structure BlockEvent where
  index : Nat
  part : Part

/-- The block as it opens: without text, with an empty input. -/
def Block.opening : Block → Json
  | .text _ => .obj [("type", .str "text"), ("text", .str "")]
  | .toolUse id name _ =>
      .obj [("type", .str "tool_use"), ("id", .str id), ("name", .str name), ("input", .obj [])]

def BlockEvent.event (e : BlockEvent) : Event :=
  match e.part with
  | .start block => ("content_block_start", [("type", .str "content_block_start"),
      ("index", .int e.index), ("content_block", block.opening)])
  | .text piece => ("content_block_delta", [("type", .str "content_block_delta"),
      ("index", .int e.index),
      ("delta", .obj [("type", .str "text_delta"), ("text", .str piece)])])
  | .json piece => ("content_block_delta", [("type", .str "content_block_delta"),
      ("index", .int e.index),
      ("delta", .obj [("type", .str "input_json_delta"), ("partial_json", .str piece)])])
  | .stop => ("content_block_stop",
      [("type", .str "content_block_stop"), ("index", .int e.index)])

/-- The deltas of a block: its text, or the JSON text of its input, in pieces.
An empty input may have no text. -/
inductive Deltas (py : Python) : Block → List Part → Prop where
  | text (pieces : List String) : Deltas py (.text (String.join pieces)) (pieces.map .text)
  | noInput {id name : String} (pieces : List String) : String.join pieces = "" →
      Deltas py (.toolUse id name []) (pieces.map .json)
  | input {id name : String} {input : JsonObject} (pieces : List String) :
      String.join pieces ≠ "" → py.loads (String.join pieces) = some (.obj input) →
      Deltas py (.toolUse id name input) (pieces.map .json)

/-- The events of the blocks, in any interleaving. -/
structure BlockStream (py : Python) (blocks : List Block) (events : List BlockEvent) : Prop where
  known : ∀ e ∈ events, e.index < blocks.length
  whole : ∀ i, (h : i < blocks.length) → ∃ parts, Deltas py blocks[i] parts ∧
    fibre BlockEvent.index events i =
      ⟨i, .start blocks[i]⟩ :: parts.map (BlockEvent.mk i) ++ [⟨i, .stop⟩]

def messageStartEvent (message : Message) (usage : Json) : Event :=
  ("message_start", [("type", .str "message_start"), ("message", .obj
    [("id", .str message.id), ("type", .str "message"), ("role", .str "assistant"),
      ("model", .str message.model), ("content", .arr []), ("stop_reason", .null),
      ("usage", usage)])])

def messageDeltaEvent (message : Message) (usage : Json) : Event :=
  ("message_delta", [("type", .str "message_delta"),
    ("delta", .obj [("stop_reason", textOrNull message.stopReason)]), ("usage", usage)])

def messageStopEvent : Event := ("message_stop", [("type", .str "message_stop")])

/-- Two reports of cumulative counters, the first before the message is done:
none goes beyond the message's own, and one of the two has reached it. -/
def Cumulative (start delta usage : Json) : Prop :=
  ∀ counter ∈ [AnthropicUsage.input, AnthropicUsage.cacheRead,
      AnthropicUsage.cacheWrite, AnthropicUsage.output],
    let of (report : Json) := counter (.read (some report))
    of start ≤ of usage ∧ of delta ≤ of usage ∧ (of start = of usage ∨ of delta = of usage)

/-- A valid event stream of a message, with the events of its blocks. -/
structure EventStream (py : Python) (message : Message) (parts : List BlockEvent)
    (events : List Event) : Prop where
  blocks : BlockStream py message.content parts
  framed : ∃ start delta, Cumulative start delta message.usage ∧
    events = messageStartEvent message start :: parts.map BlockEvent.event ++
      [messageDeltaEvent message delta, messageStopEvent]

/-! ## Assembled answers -/

/-- The call of a tool index: its id, its name, and its arguments put
together. -/
def callAt (deltas : List CallDelta) (index : Nat) : ToolCall :=
  let mine := deltas.filter fun delta => delta.index = index
  { id := (mine.findSome? (·.id)).getD ""
    name := (mine.findSome? (·.name)).getD ""
    arguments := String.join (mine.map (·.arguments)) }

/-- How many tool indexes there are. -/
def callCount (deltas : List CallDelta) : Nat :=
  (deltas.map fun delta => delta.index + 1).foldl max 0

structure Assembled where
  content : String
  toolCalls : List ToolCall
  finishReason : Option String
  usage : Option CompletionUsage
deriving DecidableEq

def assemble (chunks : List Chunk) : Assembled :=
  let deltas := chunks.flatMap (·.toolCalls)
  { content := String.join (chunks.filterMap (·.content))
    toolCalls := (List.range (callCount deltas)).map (callAt deltas)
    finishReason := chunks.findSome? (·.finishReason)
    usage := chunks.findSome? (·.usage) }

/-- Arguments as the tools read them: no text is the empty object. -/
def decodeArguments (py : Python) (arguments : String) : Option Json :=
  if arguments = "" then some (.obj []) else py.loads arguments

/-- The same call: the arguments of both decode, to one object. -/
def SameCall (py : Python) (a b : ToolCall) : Prop :=
  a.id = b.id ∧ a.name = b.name ∧ ∃ input : JsonObject,
    decodeArguments py a.arguments = some (.obj input) ∧
    decodeArguments py b.arguments = some (.obj input)

/-- `json.loads` undoes `json.dumps`. -/
def Python.Inverts (py : Python) (input : JsonObject) : Prop :=
  py.dumps (.obj input) ≠ "" ∧ py.loads (py.dumps (.obj input)) = some (.obj input)

/-! ## Blocks and events -/

/-- A tool call of the message. -/
structure Tool where
  id : String
  name : String
  input : JsonObject

def Block.tool? : Block → Option Tool
  | .text _ => none
  | .toolUse id name input => some ⟨id, name, input⟩

def Block.text? : Block → Option String
  | .text content => some content
  | .toolUse .. => none

/-- The tool call that an event opens. -/
def BlockEvent.opens (e : BlockEvent) : Option Tool :=
  match e.part with
  | .start block => block.tool?
  | _ => none

def BlockEvent.textPiece (e : BlockEvent) : Option String :=
  match e.part with
  | .text piece => some piece
  | _ => none

/-- Tool calls open, and text deltas come, in the order of the blocks. -/
structure InOrder (parts : List BlockEvent) : Prop where
  tools : (parts.filter fun e => e.opens.isSome).Pairwise fun a b => a.index ≤ b.index
  texts : (parts.filter fun e => e.textPiece.isSome).Pairwise fun a b => a.index ≤ b.index

section

variable {py : Python} {blocks : List Block} {parts : List BlockEvent}

/-! ## The whole message -/

/-- The call of the `k`-th tool block, as the whole message has it. -/
def Tool.call (py : Python) (tool : Tool) (k : Nat) : ToolCall where
  id := if tool.id = "" then s!"tool_{k}" else tool.id
  name := if tool.name = "" then "tool" else tool.name
  arguments := py.dumps (.obj tool.input)

theorem strOr_str {object : JsonObject} {key text default : String}
    (h : object.get? key = some (.str text)) :
    strOr py object key default = if text = "" then default else text := by
  simp only [strOr, h, Json.truthy, pyStr, decide_not, Bool.not_eq_true', decide_eq_false_iff_not]
  by_cases ht : text = "" <;> simp [ht]

/-- Reports of cumulative counters merge to the message's own. -/
theorem Cumulative.merge {start delta usage : Json} (h : Cumulative start delta usage) :
    (AnthropicUsage.read (some start)).merge (.read (some delta)) = .read (some usage) := by
  have hmax : ∀ counter ∈ [AnthropicUsage.input, AnthropicUsage.cacheRead,
      AnthropicUsage.cacheWrite, AnthropicUsage.output],
      max (counter (.read (some start))) (counter (.read (some delta))) =
        counter (.read (some usage)) := by
    intro counter hcounter
    obtain ⟨hstart, hdelta, hreached⟩ := h counter hcounter
    simp only at hstart hdelta hreached
    omega
  rw [AnthropicUsage.merge, hmax AnthropicUsage.input (by simp),
    hmax AnthropicUsage.cacheRead (by simp), hmax AnthropicUsage.cacheWrite (by simp),
    hmax AnthropicUsage.output (by simp)]

/-- Where tool calls open, in order. -/
def openIndices (parts : List BlockEvent) : List Nat :=
  (parts.filter fun e => e.opens.isSome).map (·.index)

/-- What an event says of a call, where the call of block `i` has the tool
index `slot i`. -/
def BlockEvent.delta (slot : Nat → Nat) (e : BlockEvent) : Option CallDelta :=
  match e.part with
  | .start block => block.tool?.map fun tool =>
      { index := slot e.index
        id := some (if tool.id = "" then s!"tool_{slot e.index}" else tool.id)
        name := some (if tool.name = "" then "tool" else tool.name)
        arguments := "" }
  | .json piece => some ⟨slot e.index, none, none, piece⟩
  | _ => none

/-- The chunks an event yields, `frame` being a chunk with an empty delta. -/
def BlockEvent.chunks (frame : Chunk) (slot : Nat → Nat) (e : BlockEvent) : List Chunk :=
  match e.textPiece, e.delta slot with
  | some piece, _ => [{ frame with content := some piece }]
  | none, some delta => [{ frame with toolCalls := [delta] }]
  | none, none => []

/-- The tool indexes after the events `parts`. -/
structure Opened (slot : Nat → Nat) (parts : List BlockEvent) (s : StreamState) : Prop where
  next : s.nextToolIndex = (openIndices parts).length
  slots : ∀ i : Nat, s.toolIndexes.get? (i : Int) =
    if i ∈ openIndices parts then some (slot i) else none

/-- The locals that the blocks leave alone. -/
structure SameFrame (s s' : StreamState) : Prop where
  chunk : s'.chunk = s.chunk
  finished : s'.finished = s.finished
  usage : s'.usage = s.usage

variable {slot : Nat → Nat} {pre post : List BlockEvent} {s s' : StreamState} {e : BlockEvent}

theorem openIndices_append : openIndices (pre ++ post) = openIndices pre ++ openIndices post := by
  simp [openIndices]

theorem openIndices_singleton (e : BlockEvent) :
    openIndices [e] = if e.opens.isSome then [e.index] else [] := by
  simp only [openIndices, List.filter_cons, List.filter_nil]
  split <;> rfl

/-- An event that opens no call changes no index. -/
theorem Opened.quiet (h : Opened slot pre s) (hopens : e.opens = none) :
    Opened slot (pre ++ [e]) s := by
  have hsame : openIndices (pre ++ [e]) = openIndices pre := by
    rw [openIndices_append, openIndices_singleton, hopens]
    exact List.append_nil _
  exact ⟨by rw [hsame, h.next], by rw [hsame]; exact h.slots⟩

/-- A call opens at the next index. -/
theorem Opened.opens (h : Opened slot pre s) {i : Nat} (hfresh : i ∉ openIndices pre)
    (hslot : slot i = (openIndices pre).length) (hopens : e.opens.isSome = true)
    (hi : e.index = i) :
    (s.toolIndex i).1 = slot i ∧ Opened slot (pre ++ [e]) (s.toolIndex i).2 ∧
      SameFrame s (s.toolIndex i).2 := by
  have hnone : s.toolIndexes.get? (i : Int) = none := by rw [h.slots, if_neg hfresh]
  have hindices : openIndices (pre ++ [e]) = openIndices pre ++ [i] := by
    rw [openIndices_append, openIndices_singleton, if_pos hopens, hi]
  simp only [StreamState.toolIndex, hnone]
  refine ⟨by rw [hslot, h.next], ⟨?_, fun j => ?_⟩, rfl, rfl, rfl⟩
  · simp only [hindices, h.next, List.length_append, List.length_singleton]
  · rw [hindices]
    simp only [Dict.get?_set, List.mem_append, List.mem_singleton]
    by_cases hj : j = i
    · subst hj
      simp [hslot, h.next]
    · rw [if_neg (by omega), h.slots]
      simp [hj]

/-- The index of an open call is found again. -/
theorem Opened.found (h : Opened slot pre s) {i : Nat} (hopen : i ∈ openIndices pre)
    (hopens : e.opens = none) (hslot : slot i < (openIndices pre).length) :
    (s.toolIndex i).1 = slot i ∧ Opened slot (pre ++ [e]) (s.toolIndex i).2 ∧
      SameFrame s (s.toolIndex i).2 := by
  have hsome : s.toolIndexes.get? (i : Int) = some (slot i) := by rw [h.slots, if_pos hopen]
  simp only [StreamState.toolIndex, hsome]
  refine ⟨trivial, Opened.quiet ⟨?_, h.slots⟩ hopens, rfl, rfl, rfl⟩
  show max s.nextToolIndex (slot i + 1) = _
  rw [h.next]
  omega

/-- A piece of input comes after its call has opened. -/
theorem BlockStream.opened (h : BlockStream py blocks (pre ++ e :: post)) {piece : String}
    (hpart : e.part = .json piece) : e.index ∈ openIndices pre := by
  have hknown := h.known e (List.mem_append_right _ List.mem_cons_self)
  obtain ⟨parts, hdeltas, hfibre⟩ := h.whole e.index hknown
  rw [fibre_append, fibre_cons_self] at hfibre
  cases hpre : fibre BlockEvent.index pre e.index with
  | nil =>
      rw [hpre, List.nil_append, List.cons_append] at hfibre
      rw [(List.cons.inj hfibre).1] at hpart
      cases hpart
  | cons first rest =>
      rw [hpre, List.cons_append, List.cons_append] at hfibre
      obtain ⟨rfl, hrest⟩ := List.cons.inj hfibre
      have hmem : e ∈ parts.map (BlockEvent.mk e.index) ++ [⟨e.index, .stop⟩] :=
        hrest ▸ List.mem_append_right _ List.mem_cons_self
      have hjson : Part.json piece ∈ parts := by
        rcases List.mem_append.mp hmem with hmem | hmem
        · obtain ⟨part, hmem, heq⟩ := List.mem_map.mp hmem
          rw [← heq] at hpart
          cases hpart
          exact hmem
        · rw [List.mem_singleton.mp hmem] at hpart
          cases hpart
      have hstart : (⟨e.index, .start blocks[e.index]⟩ : BlockEvent) ∈ pre :=
        (mem_fibre.mp (hpre ▸ List.mem_cons_self)).1
      refine List.mem_map.mpr ⟨_, List.mem_filter.mpr ⟨hstart, ?_⟩, rfl⟩
      generalize blocks[e.index] = block at hdeltas
      cases hdeltas with
      | text pieces =>
          obtain ⟨_, -, hne⟩ := List.mem_map.mp hjson
          cases hne
      | noInput => rfl
      | input => rfl

/-- The tool call of the `i`-th block. -/
def toolAt (blocks : List Block) (i : Nat) : Option Tool := blocks[i]?.bind Block.tool?

/-- Where the tool calls stand, in order. -/
def toolIndices (blocks : List Block) : List Nat :=
  (List.range blocks.length).filter fun i => (toolAt blocks i).isSome

theorem filter_range_map {α : Type} (l : List Nat) (f : Nat → Option α) :
    (l.filter fun i => (f i).isSome).map f = (l.filterMap f).map some := by
  induction l with
  | nil => rfl
  | cons i l ih =>
      cases h : f i with
      | none => rw [List.filter_cons_of_neg (by simp [h]), List.filterMap_cons_none h, ih]
      | some a =>
          rw [List.filter_cons_of_pos (by simp [h]), List.filterMap_cons_some h, List.map_cons,
            List.map_cons, ih, h]

theorem filterMap_range {α : Type} (blocks : List Block) (f : Block → Option α) :
    (List.range blocks.length).filterMap (fun i => blocks[i]?.bind f) = blocks.filterMap f := by
  have h : (List.range blocks.length).map (fun i => blocks[i]?) = blocks.map some := by
    refine List.ext_getElem (by simp) fun i h _ => ?_
    simp at h
    simp [h]
  calc (List.range blocks.length).filterMap (fun i => blocks[i]?.bind f)
      = ((List.range blocks.length).map fun i => blocks[i]?).filterMap (·.bind f) := by
        rw [List.filterMap_map]
        rfl
    _ = blocks.filterMap f := by rw [h, List.filterMap_map]; rfl

theorem map_toolIndices (blocks : List Block) :
    (toolIndices blocks).map (toolAt blocks) = (blocks.filterMap Block.tool?).map some := by
  rw [toolIndices, filter_range_map, ← filterMap_range]
  rfl

theorem nodup_toolIndices (blocks : List Block) : (toolIndices blocks).Nodup :=
  List.nodup_range.filter _

theorem flatMap_ite (l : List Nat) (p : Nat → Bool) :
    l.flatMap (fun i => if p i then [i] else []) = l.filter p := by
  induction l with
  | nil => rfl
  | cons i l ih =>
      rw [List.flatMap_cons, ih]
      cases h : p i
      · rw [List.filter_cons_of_neg (by simp [h])]
        simp
      · rw [List.filter_cons_of_pos (by simp [h])]
        simp

/-- Deltas open nothing. -/
theorem Deltas.opens_none {block : Block} {deltas : List Part} (h : Deltas py block deltas)
    (i : Nat) : ∀ part ∈ deltas, (BlockEvent.mk i part).opens = none := by
  intro part hpart
  cases h with
  | text =>
      obtain ⟨_, -, rfl⟩ := List.mem_map.mp hpart
      rfl
  | noInput =>
      obtain ⟨_, -, rfl⟩ := List.mem_map.mp hpart
      rfl
  | input =>
      obtain ⟨_, -, rfl⟩ := List.mem_map.mp hpart
      rfl

/-- Tool calls open where they stand. -/
theorem BlockStream.openIndices_eq (h : BlockStream py blocks parts) (hin : InOrder parts) :
    openIndices parts = toolIndices blocks := by
  have hopens := flatMap_fibre (n := blocks.length) hin.tools
    fun e he => h.known e (List.mem_filter.mp he).1
  rw [openIndices, ← hopens, List.map_flatMap, toolIndices, ← flatMap_ite]
  refine List.flatMap_congr fun i hi => ?_
  have hi : i < blocks.length := List.mem_range.mp hi
  obtain ⟨deltas, hdeltas, hfibre⟩ := h.whole i hi
  have hnone : (deltas.map (BlockEvent.mk i)).filter (fun e => e.opens.isSome) = [] := by
    refine List.filter_eq_nil_iff.mpr fun e he => ?_
    obtain ⟨part, hpart, rfl⟩ := List.mem_map.mp he
    simp [hdeltas.opens_none i part hpart]
  have htool : toolAt blocks i = blocks[i].tool? := by
    rw [toolAt, List.getElem?_eq_getElem hi, Option.bind_some]
  rw [fibre_filter, hfibre, List.filter_append, List.filter_cons, hnone, htool]
  show List.map _ ((if blocks[i].tool?.isSome then _ else _) ++ []) = _
  split
  · rfl
  · rfl

/-! ## The text -/

theorem foldl_max_le {l : List Nat} {a n : Nat} :
    l.foldl max a ≤ n ↔ a ≤ n ∧ ∀ x ∈ l, x ≤ n := by
  induction l generalizing a with
  | nil => simp
  | cons b l ih =>
      rw [List.foldl_cons, ih]
      simp only [List.mem_cons, forall_eq_or_imp, Nat.max_le, and_assoc]

/-- Indexes without a gap are counted by their number. -/
theorem callCount_eq {deltas : List CallDelta} {n : Nat} (hlt : ∀ d ∈ deltas, d.index < n)
    (hall : ∀ k < n, ∃ d ∈ deltas, d.index = k) : callCount deltas = n := by
  have hle : ∀ m, callCount deltas ≤ m ↔ ∀ d ∈ deltas, d.index + 1 ≤ m := by
    intro m
    simp [callCount, foldl_max_le]
  refine Nat.le_antisymm ((hle n).mpr hlt) ?_
  cases n with
  | zero => exact Nat.zero_le _
  | succ n =>
      obtain ⟨d, hd, rfl⟩ := hall n (Nat.lt_succ_self _)
      exact (hle _).mp (Nat.le_refl _) d hd

/-- An event says something of a call only when the call is open. -/
theorem BlockStream.delta_open (h : BlockStream py blocks parts) (he : e ∈ parts) {d : CallDelta}
    (hd : e.delta slot = some d) : e.index ∈ openIndices parts ∧ d.index = slot e.index := by
  obtain ⟨i, part⟩ := e
  cases part with
  | start block =>
      obtain ⟨tool, htool, rfl⟩ := Option.map_eq_some_iff.mp hd
      refine ⟨List.mem_map.mpr ⟨_, List.mem_filter.mpr ⟨he, ?_⟩, rfl⟩, rfl⟩
      show block.tool?.isSome = true
      rw [htool]
      rfl
  | json piece =>
      cases hd
      obtain ⟨pre, post, rfl⟩ := List.append_of_mem he
      rw [openIndices_append]
      exact ⟨List.mem_append_left _ (h.opened rfl), rfl⟩
  | text piece => cases hd
  | stop => cases hd

theorem opens_delta (slot : Nat → Nat) (h : e.opens.isSome = true) : ∃ d, e.delta slot = some d := by
  obtain ⟨i, part⟩ := e
  cases part with
  | start block =>
      obtain ⟨tool, htool⟩ := Option.isSome_iff_exists.mp h
      exact ⟨_, Option.map_eq_some_iff.mpr ⟨tool, htool, rfl⟩⟩
  | text piece => cases h
  | json piece => cases h
  | stop => cases h

/-- What is said of one call is what its block says. -/
theorem BlockStream.filter_delta (h : BlockStream py blocks parts) {i : Nat}
    (hi : i ∈ openIndices parts) :
    (parts.filterMap (BlockEvent.delta (openIndices parts).idxOf)).filter
        (fun d => d.index = (openIndices parts).idxOf i) =
      (fibre BlockEvent.index parts i).filterMap
        (BlockEvent.delta (openIndices parts).idxOf) := by
  rw [List.filter_filterMap, fibre, List.filterMap_filter]
  refine List.filterMap_congr fun e he => ?_
  cases hd : e.delta (openIndices parts).idxOf with
  | none => simp
  | some d =>
      obtain ⟨hopen, hindex⟩ := h.delta_open he hd
      by_cases hsame : e.index = i
      · subst hsame
        simp [hindex]
      · have hne : d.index ≠ (openIndices parts).idxOf i := by
          rw [hindex]
          exact fun heq => hsame ((List.idxOf_inj hopen).mp heq)
        simp [hsame, hne]

/-- The pieces a tool block streams are the text of its input. -/
theorem Deltas.pieces (slot : Nat → Nat) {tool : Tool} {deltas : List Part}
    (h : Deltas py (.toolUse tool.id tool.name tool.input) deltas) (i : Nat) :
    ∃ pieces, (deltas.map (BlockEvent.mk i)).filterMap (BlockEvent.delta slot) =
        pieces.map (fun piece => ⟨slot i, none, none, piece⟩) ∧
      decodeArguments py (String.join pieces) = some (.obj tool.input) := by
  have hmap : ∀ pieces : List String,
      ((pieces.map Part.json).map (BlockEvent.mk i)).filterMap (BlockEvent.delta slot) =
        pieces.map fun piece => ⟨slot i, none, none, piece⟩ := by
    intro pieces
    rw [List.map_map, List.filterMap_map, ← List.filterMap_eq_map]
    rfl
  obtain ⟨id, name, input⟩ := tool
  cases h with
  | noInput pieces hempty =>
      refine ⟨pieces, hmap pieces, ?_⟩
      rw [decodeArguments, if_pos hempty]
  | input pieces hne hloads =>
      refine ⟨pieces, hmap pieces, ?_⟩
      rw [decodeArguments, if_neg hne, hloads]

/-- The call assembled at a tool index. -/
theorem BlockStream.sameCall (h : BlockStream py blocks parts) {i : Nat} {tool : Tool}
    (hi : i ∈ openIndices parts) (htool : toolAt blocks i = some tool)
    (hinverts : py.Inverts tool.input) :
    SameCall py (callAt (parts.filterMap (BlockEvent.delta (openIndices parts).idxOf))
        ((openIndices parts).idxOf i)) (tool.call py ((openIndices parts).idxOf i)) := by
  have hlt : i < blocks.length := by
    by_contra hge
    rw [toolAt, List.getElem?_eq_none (Nat.le_of_not_lt hge)] at htool
    cases htool
  have hblock : blocks[i] = .toolUse tool.id tool.name tool.input := by
    rw [toolAt, List.getElem?_eq_getElem hlt, Option.bind_some] at htool
    generalize blocks[i] = block at htool
    cases block with
    | text => cases htool
    | toolUse => cases htool; rfl
  obtain ⟨deltas, hdeltas, hfibre⟩ := h.whole i hlt
  rw [hblock] at hdeltas hfibre
  obtain ⟨pieces, hpieces, hdecode⟩ := hdeltas.pieces (openIndices parts).idxOf i
  have hmine : (fibre BlockEvent.index parts i).filterMap
      (BlockEvent.delta (openIndices parts).idxOf) =
      { index := (openIndices parts).idxOf i
        id := some (tool.call py ((openIndices parts).idxOf i)).id
        name := some (tool.call py ((openIndices parts).idxOf i)).name
        arguments := "" } ::
      pieces.map (fun piece => ⟨(openIndices parts).idxOf i, none, none, piece⟩) := by
    rw [hfibre, List.filterMap_append, List.filterMap_cons, hpieces]
    show _ :: _ ++ [] = _
    rw [List.append_nil]
    rfl
  rw [callAt, h.filter_delta hi, hmine]
  refine ⟨rfl, rfl, tool.input, ?_, ?_⟩
  · rw [List.map_cons, String.join_cons, List.map_map]
    have hjoin : pieces.map (CallDelta.arguments ∘ fun piece =>
        ⟨(openIndices parts).idxOf i, none, none, piece⟩) = pieces := List.map_id _
    rw [hjoin, String.empty_append]
    exact hdecode
  · exact (if_neg hinverts.1).trans hinverts.2

/-- **The calls.** Those assembled are those of the message, in order. -/
theorem BlockStream.calls (h : BlockStream py blocks parts) (hin : InOrder parts)
    (hinverts : ∀ tool ∈ blocks.filterMap Block.tool?, py.Inverts tool.input) :
    let deltas := parts.filterMap (BlockEvent.delta (openIndices parts).idxOf)
    List.Forall₂ (SameCall py) ((List.range (callCount deltas)).map (callAt deltas))
      ((blocks.filterMap Block.tool?).zipIdx.map fun tool => tool.1.call py tool.2) := by
  intro deltas
  have hopen := h.openIndices_eq hin
  have hnodup : (openIndices parts).Nodup := hopen ▸ nodup_toolIndices blocks
  have hmap : (openIndices parts).map (toolAt blocks) = (blocks.filterMap Block.tool?).map some :=
    hopen ▸ map_toolIndices blocks
  have hlength : (openIndices parts).length = (blocks.filterMap Block.tool?).length := by
    simpa using congrArg List.length hmap
  have hcount : callCount deltas = (openIndices parts).length := by
    refine callCount_eq (fun d hd => ?_) fun k hk => ?_
    · obtain ⟨e, he, hd⟩ := List.mem_filterMap.mp hd
      obtain ⟨hmem, hindex⟩ := h.delta_open he hd
      rw [hindex]
      exact List.idxOf_lt_length_of_mem hmem
    · obtain ⟨e, he, hindex⟩ := List.mem_map.mp (List.getElem_mem hk)
      obtain ⟨he, hopens⟩ := List.mem_filter.mp he
      obtain ⟨d, hd⟩ := opens_delta (openIndices parts).idxOf hopens
      refine ⟨d, List.mem_filterMap.mpr ⟨e, he, hd⟩, ?_⟩
      rw [(h.delta_open he hd).2, hindex, hnodup.idxOf_getElem]
  rw [hcount]
  refine List.forall₂_iff_get.mpr ⟨by simpa using hlength, fun k hk hk' => ?_⟩
  have hk : k < (openIndices parts).length := by simpa using hk
  have hk' : k < (blocks.filterMap Block.tool?).length := hlength ▸ hk
  have htool : toolAt blocks (openIndices parts)[k] = some (blocks.filterMap Block.tool?)[k] := by
    have := List.getElem_of_eq hmap (by simpa using hk)
    simpa using this
  have hsame := h.sameCall (List.getElem_mem hk) htool (hinverts _ (List.getElem_mem hk'))
  rw [hnodup.idxOf_getElem] at hsame
  simpa using hsame

/-! ## The answers -/

end

/-- The `json` module on the two inputs below. -/
def smallPython : Python where
  repr _ := ""
  toInt _ := none
  dumps | .obj [] => "\x7b\x7d" | _ => "\x7b\"x\": 1\x7d"
  loads
    | "\x7b\x7d" => some (.obj [])
    | "\x7b\"x\": 1\x7d" => some (.obj [("x", .int 1)])
    | _ => none

/-- The counters of a message that is done, and of one that has begun. -/
def usageReport (output : Int) : Json :=
  .obj [("input_tokens", .int 12), ("cache_read_input_tokens", .int 30),
    ("output_tokens", .int output)]

/-- The events of a message, with the usage above. -/
def eventsOf (message : Message) (parts : List BlockEvent) : List Event :=
  messageStartEvent message (usageReport 1) :: parts.map BlockEvent.event ++
    [messageDeltaEvent message (usageReport 9), messageStopEvent]

/-- The two answers, for a valid stream. -/
def Answers (completion : Completion) (streamed : Assembled) : Prop :=
  ∃ message parts, EventStream smallPython message parts (eventsOf message parts) ∧
    chatCompletion smallPython "m" message.raw = some completion ∧
    assemble (chatStream smallPython "m" (eventsOf message parts)).1 = streamed

end Anthropic

end MineBot
