import Mathlib
import MineBot.AnthropicModel

/-!
# The Anthropic adapter's messages

Chat messages become Anthropic messages one by one, neighbours of one role
are merged, and the last block in front of the volatile tail gets the cache
breakpoint. The tail is the `CURRENT_CONTEXT:` message that ends a request and
changes on every call.

`blocksOf` is what the provider caches a prefix of: the blocks, each with the
role it is said in. Merging leaves it as it is (`blocksOf_mergeMessages`) and
the breakpoint changes one block of it, none of the tail's
(`markHistoryBreakpoint_spec`).
-/

namespace MineBot

namespace AnthropicRequest

open Anthropic (strOr)

/-- What else the language makes of values, for requests. -/
structure RequestPython extends Anthropic.Python where
  /-- `base64.b64decode(data, validate=True)` goes through -/
  validBase64 : String → Bool
  /-- `urlsplit(url).scheme`; `none` where it raises -/
  scheme : String → Option String

abbrev Block := JsonObject

inductive Role where
  | user
  | assistant
deriving DecidableEq

structure Message where
  role : Role
  content : List Block

def textBlock (text : String) : Block := [("type", .str "text"), ("text", .str text)]

/-! ## Blocks of a message -/

section

variable (py : RequestPython)

/-- `_image_block`; the outer `none` is an error. -/
def imageBlock (url : Json) : Option (Option Block) :=
  match url with
  | .str text =>
      let source (fields : JsonObject) : Block := [("type", .str "image"), ("source", .obj fields)]
      if text = "" then some none
      else if "data:".toList.isPrefixOf text.toList then
        let header := text.toList.takeWhile (· ≠ ',')
        let rest := text.toList.drop header.length
        let data := String.ofList (rest.drop 1)
        if rest = [] || !header.tails.any (";base64".toList.isPrefixOf ·) || !py.validBase64 data then
          some none
        else
          let mediaType := String.ofList ((header.drop 5).takeWhile (· ≠ ';'))
          some (some (source [("type", .str "base64"),
            ("media_type", .str (if mediaType = "" then "image/png" else mediaType)),
            ("data", .str data)]))
      else (py.scheme text).map fun scheme =>
        if scheme = "http" || scheme = "https" then
          some (source [("type", .str "url"), ("url", .str text)])
        else none
  | _ => some none

/-- `object.get(key)` -/
def getOr (object : JsonObject) (key : String) : Json := (object.get? key).getD .null

/-- The block of a part of a content, if it has one; the outer `none` is an
error, as when the kind cannot be hashed. -/
def partBlock : Json → Option (Option Block)
  | .str text => some (some (textBlock text))
  | .obj part =>
      match getOr part "type" with
      | .str kind =>
          if kind = "text" || kind = "input_text" || kind = "output_text" then
            some (some (textBlock (strOr py.toPython part "text" "")))
          else if kind = "image_url" || kind = "input_image" then
            let image := if kind = "image_url" then getOr part "image_url" else .obj part
            match image with
            | .obj fields =>
                let url := getOr fields "url"
                imageBlock py (if url.truthy then url else getOr fields "image_url")
            | url => imageBlock py url
          else if kind = "document" then some (some part)
          else some none
      | .arr _ => none
      | .obj _ => none
      | _ => some none
  | _ => some none

/-- `_content_blocks`. -/
def contentBlocks : Json → Option (List Block)
  | .str text => some [textBlock text]
  | .arr parts => (parts.mapM (partBlock py)).map (List.filterMap id)
  | _ => some []

/-- A call of the assistant, after the blocks so far. -/
def toolUse (blocks : List Block) : Json → Option (List Block)
  | .obj call =>
      match Dict.get? call "function" with
      | some (.obj function) =>
          let arguments := py.loads (strOr py.toPython function "arguments" "\x7b\x7d")
          some (blocks ++ [[("type", .str "tool_use"),
            ("id", .str (strOr py.toPython call "id" ("tool_" ++ toString blocks.length))),
            ("name", .str (strOr py.toPython function "name" "tool")),
            ("input", arguments.getD (.obj []))]])
      | _ => some blocks
  | _ => none

/-- `message.get("tool_calls") or []`; only a list has items that are calls. -/
def toolCalls (message : JsonObject) : Option (List Json) :=
  match getOr message "tool_calls" with
  | .arr calls => some calls
  | value => if value.truthy then none else some []

/-- `_tool_result_content`. -/
def toolResultContent : Json → String
  | .str text => text
  | value => py.dumps value

/-- `_anthropic_message`. -/
def anthropicMessage (message : JsonObject) : Option Message := do
  let role := getOr message "role"
  let blocks ← contentBlocks py (getOr message "content")
  let blocks ← if role = .str "assistant" then do
      (← toolCalls message).foldlM (toolUse py) blocks
    else some blocks
  if role = .str "tool" then
    some ⟨.user, [[("type", .str "tool_result"),
      ("tool_use_id", .str (strOr py.toPython message "tool_call_id" "tool")),
      ("content", .str (toolResultContent py (getOr message "content")))]]⟩
  else
    some ⟨if role = .str "assistant" then .assistant else .user,
      if blocks = [] then [textBlock ""] else blocks⟩

end

/-! ## Merging -/

/-- A message joins the last one of its role. -/
def mergeStep (merged : List Message) (message : Message) : List Message :=
  match merged.getLast? with
  | some last =>
      if last.role = message.role then
        merged.dropLast ++ [{ last with content := last.content ++ message.content }]
      else merged ++ [message]
  | none => merged ++ [message]

/-- `_merge_messages`. -/
def mergeMessages (messages : List Message) : List Message := messages.foldl mergeStep []

/-! ## The breakpoint -/

/-- `_cache_control`. -/
def cacheControl (ttl : Option String) : Json :=
  .obj (("type", .str "ephemeral") ::
    match ttl with
    | some ttl => if ttl = "" then [] else [("ttl", .str ttl)]
    | none => [])

def currentContextHeader : String := "CURRENT_CONTEXT:"

/-- `is_current_context_text`. -/
def isCurrentContextText : Json → Bool
  | .str text => currentContextHeader.toList.isPrefixOf text.toList
  | _ => false

/-- `_is_volatile_block`. -/
def isVolatileBlock (block : Block) : Bool :=
  getOr block "type" = .str "text" && isCurrentContextText (getOr block "text")

/-- `_can_carry_cache_control`. -/
def canCarryCacheControl (block : Block) : Bool :=
  if getOr block "type" = .str "text" then (getOr block "text").truthy
  else [Json.str "image", .str "document", .str "tool_use", .str "tool_result"].contains
    (getOr block "type")

def mark (ttl : Option String) (block : Block) : Block :=
  block.set "cache_control" (cacheControl ttl)

/-- The last block that can carry the marker gets it. -/
def markLast (ttl : Option String) : List Block → Option (List Block)
  | [] => none
  | block :: blocks =>
      match markLast ttl blocks with
      | some marked => some (block :: marked)
      | none => if canCarryCacheControl block then some (mark ttl block :: blocks) else none

/-- The blocks in front of the volatile tail, and the tail. -/
def stablePart (blocks : List Block) : List Block := blocks.rdropWhile isVolatileBlock

def volatileTail (blocks : List Block) : List Block := blocks.rtakeWhile isVolatileBlock

/-- The loop of `_mark_history_breakpoint`, from the last message to the first. -/
def markMessages (ttl : Option String) : List Message → Option (List Message)
  | [] => none
  | [last] => (markLast ttl (stablePart last.content)).map fun marked =>
      [{ last with content := marked ++ volatileTail last.content }]
  | message :: next :: rest =>
      match markMessages ttl (next :: rest) with
      | some marked => some (message :: marked)
      | none => (markLast ttl message.content).map fun marked =>
          { message with content := marked } :: next :: rest

/-- `_mark_history_breakpoint`. -/
def markHistoryBreakpoint (ttl : Option String) (messages : List Message) : List Message :=
  (markMessages ttl messages).getD messages

/-- The messages of a request: converted, merged and marked. -/
def requestMessages (py : RequestPython) (ttl : Option String) (messages : List JsonObject) :
    Option (List Message) :=
  (messages.mapM (anthropicMessage py)).map fun converted =>
    markHistoryBreakpoint ttl (mergeMessages converted)

/-- `is_current_context_item`. -/
def isCurrentContextItem (item : JsonObject) : Bool :=
  getOr item "role" = .str "user" && isCurrentContextText (getOr item "content")

/-! ## What a prefix is cached of -/

/-- The blocks, each with the role it is said in. -/
def blocksOf (messages : List Message) : List (Role × Block) :=
  messages.flatMap fun message => message.content.map (message.role, ·)

/-- Neighbours have different roles. -/
def Alternates (messages : List Message) : Prop :=
  messages.IsChain fun message next => message.role ≠ next.role

def unmark (block : Role × Block) : Role × Block := (block.1, block.2.pop "cache_control")

def isMarked (block : Role × Block) : Bool := (block.2.get? "cache_control").isSome

/-- The second are the first blocks with the marker on the one in the place. -/
def MarkedAt (ttl : Option String) (blocks marked : List (Role × Block)) (n : Nat) : Prop :=
  ∃ block, blocks[n]? = some block ∧ marked = blocks.set n (block.1, mark ttl block.2)

theorem blocksOf_append (messages more : List Message) :
    blocksOf (messages ++ more) = blocksOf messages ++ blocksOf more := List.flatMap_append

theorem blocksOf_singleton (message : Message) :
    blocksOf [message] = message.content.map (message.role, ·) := List.flatMap_singleton ..

theorem blocksOf_cons (message : Message) (messages : List Message) :
    blocksOf (message :: messages) = message.content.map (message.role, ·) ++ blocksOf messages :=
  List.flatMap_cons

/-! ### Merging -/

theorem mergeStep_cases (merged : List Message) (message : Message) :
    (∃ front last, merged = front ++ [last] ∧ last.role = message.role ∧
      mergeStep merged message = front ++ [{ last with content := last.content ++ message.content }]) ∨
    (∀ last ∈ merged.getLast?, last.role ≠ message.role) ∧
      mergeStep merged message = merged ++ [message] := by
  cases hlast : merged.getLast? with
  | none =>
      refine .inr ⟨?_, by simp only [mergeStep, hlast]⟩
      rintro _ ⟨⟩
  | some last =>
      obtain ⟨front, rfl⟩ := List.getLast?_eq_some_iff.mp hlast
      rw [mergeStep, hlast]
      by_cases hrole : last.role = message.role
      · refine .inl ⟨front, last, rfl, hrole, ?_⟩
        simp only [hrole, if_true, List.dropLast_concat]
      · refine .inr ⟨?_, by simp only [hrole, if_false]⟩
        rintro _ ⟨⟩
        exact hrole

theorem blocksOf_mergeStep (merged : List Message) (message : Message) :
    blocksOf (mergeStep merged message) = blocksOf merged ++ blocksOf [message] := by
  rcases mergeStep_cases merged message with ⟨front, last, rfl, hrole, hstep⟩ | ⟨-, hstep⟩
  · rw [hstep, blocksOf_append, blocksOf_append, List.append_assoc]
    simp only [blocksOf_singleton, List.map_append, hrole]
  · rw [hstep, blocksOf_append]

theorem Alternates.mergeStep {merged : List Message} (h : Alternates merged) (message : Message) :
    Alternates (mergeStep merged message) := by
  rcases mergeStep_cases merged message with ⟨front, last, rfl, hrole, hstep⟩ | ⟨hlast, hstep⟩
  · rw [hstep]
    obtain ⟨hfront, -, hjoin⟩ := List.isChain_append.mp h
    refine hfront.append (.singleton _) fun m hm next hnext => ?_
    obtain rfl := Option.some.inj hnext
    exact hjoin m hm last rfl
  · rw [hstep]
    refine .append h (.singleton _) fun m hm next hnext => ?_
    obtain rfl := Option.some.inj hnext
    exact hlast m hm

theorem blocksOf_mergeMessages (messages : List Message) :
    blocksOf (mergeMessages messages) = blocksOf messages := by
  have hfold : ∀ merged, blocksOf (messages.foldl AnthropicRequest.mergeStep merged) =
      blocksOf merged ++ blocksOf messages := by
    induction messages with
    | nil => exact fun merged => (List.append_nil _).symm
    | cons message messages ih =>
        intro merged
        rw [List.foldl_cons, ih, blocksOf_mergeStep, List.append_assoc, ← blocksOf_append]
        rfl
  exact hfold []

theorem alternates_mergeMessages (messages : List Message) : Alternates (mergeMessages messages) := by
  have hfold : ∀ merged, Alternates merged → Alternates (messages.foldl AnthropicRequest.mergeStep merged) := by
    induction messages with
    | nil => exact fun _ h => h
    | cons message messages ih => exact fun merged h => ih _ (h.mergeStep message)
  exact hfold [] .nil

/-! ### Marking -/

theorem length_content_le {messages : List Message} {message : Message} (h : message ∈ messages) :
    message.content.length ≤ (blocksOf messages).length := by
  obtain ⟨front, rest, rfl⟩ := List.append_of_mem h
  rw [blocksOf_append, blocksOf_cons, List.length_append, List.length_append, List.length_map]
  omega

theorem markLast_eq_some {ttl : Option String} {blocks marked : List Block}
    (h : markLast ttl blocks = some marked) :
    ∃ front block rest, blocks = front ++ block :: rest ∧ marked = front ++ mark ttl block :: rest := by
  induction blocks generalizing marked with
  | nil => cases h
  | cons block blocks ih =>
      rw [markLast] at h
      cases hrest : markLast ttl blocks with
      | some rest =>
          rw [hrest] at h
          obtain rfl := Option.some.inj h
          obtain ⟨front, block', rest', rfl, rfl⟩ := ih hrest
          exact ⟨block :: front, block', rest', rfl, rfl⟩
      | none =>
          simp only [hrest] at h
          split at h
          · obtain rfl := Option.some.inj h
            exact ⟨[], block, blocks, rfl, rfl⟩
          · cases h

/-- One block is marked, none of the volatile tail's. -/
theorem markMessages_eq_some {ttl : Option String} {messages marked : List Message}
    (h : markMessages ttl messages = some marked) :
    marked.map Message.role = messages.map Message.role ∧
      ∃ front block rest, blocksOf messages = front ++ block :: rest ∧
        blocksOf marked = front ++ (block.1, mark ttl block.2) :: rest ∧
        ∀ last ∈ messages.getLast?, (volatileTail last.content).length ≤ rest.length := by
  -- the marker in a message with something behind it
  have hmessage : ∀ (message : Message) (more : List Block) {content marked : List Block},
      markLast ttl content = some marked → ∃ front block rest,
        (content ++ more).map (message.role, ·) = front ++ block :: rest ∧
        (marked ++ more).map (message.role, ·) = front ++ (block.1, mark ttl block.2) :: rest ∧
        more.length ≤ rest.length := by
    intro message more content marked hmark
    obtain ⟨front, block, rest, rfl, rfl⟩ := markLast_eq_some hmark
    refine ⟨front.map (message.role, ·), (message.role, block), (rest ++ more).map (message.role, ·),
      by simp, by simp, ?_⟩
    rw [List.length_map, List.length_append]
    exact Nat.le_add_left ..
  induction messages generalizing marked with
  | nil => cases h
  | cons message messages ih =>
      cases messages with
      | nil =>
          obtain ⟨content, hcontent, rfl⟩ := Option.map_eq_some_iff.mp h
          obtain ⟨front, block, rest, hfront, hmarked, hlength⟩ :=
            hmessage message (volatileTail message.content) hcontent
          refine ⟨rfl, front, block, rest, ?_, ?_, ?_⟩
          · rw [blocksOf_singleton, ← hfront, stablePart, volatileTail,
              List.rdropWhile_append_rtakeWhile]
          · rw [blocksOf_singleton, hmarked]
          · rintro last ⟨⟩
            exact hlength
      | cons next rest =>
          rw [markMessages] at h
          cases hrest : markMessages ttl (next :: rest) with
          | some marked' =>
              rw [hrest] at h
              obtain rfl := Option.some.inj h
              obtain ⟨hroles, front, block, rest', hfront, hmarked, hlength⟩ := ih hrest
              refine ⟨by rw [List.map_cons, List.map_cons, hroles],
                message.content.map (message.role, ·) ++ front, block, rest', ?_, ?_, ?_⟩
              · rw [blocksOf_cons, hfront, List.append_assoc]
              · rw [blocksOf_cons, hmarked, List.append_assoc]
              · rwa [List.getLast?_cons_cons]
          | none =>
              simp only [hrest] at h
              obtain ⟨content, hcontent, rfl⟩ := Option.map_eq_some_iff.mp h
              obtain ⟨front, block, rest', hfront, hmarked, -⟩ := hmessage message [] hcontent
              rw [List.append_nil] at hfront hmarked
              refine ⟨rfl, front, block, rest' ++ blocksOf (next :: rest), ?_, ?_, ?_⟩
              · rw [blocksOf_cons, hfront, List.append_assoc, List.cons_append]
              · rw [blocksOf_cons, hmarked, List.append_assoc, List.cons_append]
              · intro last hlast
                rw [List.getLast?_cons_cons] at hlast
                have htail : (volatileTail last.content).length ≤ last.content.length :=
                  (List.rtakeWhile_suffix _ _).length_le
                have hcontent := length_content_le (List.mem_of_getLast? hlast)
                rw [List.length_append]
                omega

/-- **What `_mark_history_breakpoint` does**: it marks one block at most, none
of the volatile tail's. -/
theorem markHistoryBreakpoint_spec (ttl : Option String) {messages : List Message}
    (halternates : Alternates messages) :
    Alternates (markHistoryBreakpoint ttl messages) ∧
      (blocksOf (markHistoryBreakpoint ttl messages) = blocksOf messages ∨
        ∃ n, MarkedAt ttl (blocksOf messages) (blocksOf (markHistoryBreakpoint ttl messages)) n ∧
          ∀ last ∈ messages.getLast?,
            n + (volatileTail last.content).length < (blocksOf messages).length) := by
  rw [markHistoryBreakpoint]
  cases hmark : markMessages ttl messages with
  | none => exact ⟨halternates, .inl rfl⟩
  | some marked =>
      obtain ⟨hroles, front, block, rest, hblocks, hmarked, hlength⟩ := markMessages_eq_some hmark
      rw [Option.getD_some]
      constructor
      · have hchain : (messages.map Message.role).IsChain (· ≠ ·) :=
          (List.isChain_map _).mpr halternates
        rw [← hroles] at hchain
        exact (List.isChain_map _).mp hchain
      · refine .inr ⟨front.length, ⟨block, ?_, ?_⟩, fun last hlast => ?_⟩
        · rw [hblocks, List.getElem?_append_right le_rfl, Nat.sub_self]
          rfl
        · rw [hblocks, hmarked, List.set_append_right _ _ le_rfl, Nat.sub_self]
          rfl
        · have := hlength last hlast
          rw [hblocks, List.length_append, List.length_cons]
          omega

/-- Without the marker the blocks are as they were. -/
theorem MarkedAt.unmark {ttl : Option String} {blocks marked : List (Role × Block)} {n : Nat}
    (h : MarkedAt ttl blocks marked n) :
    marked.map AnthropicRequest.unmark = blocks.map AnthropicRequest.unmark := by
  obtain ⟨block, hblock, rfl⟩ := h
  have hsame : AnthropicRequest.unmark (block.1, mark ttl block.2) = AnthropicRequest.unmark block := by
    rw [AnthropicRequest.unmark, mark, Dict.pop_set]
    rfl
  rw [List.map_set, hsame]
  refine List.ext_getElem? fun i => ?_
  rw [List.getElem?_set]
  split
  · next h =>
      subst h
      obtain ⟨hlt, -⟩ := List.getElem?_eq_some_iff.mp hblock
      rw [List.getElem?_map, hblock, List.length_map, if_pos hlt]
      rfl
  · rfl

/-! ### Requests -/

section

variable {py : RequestPython} {ttl : Option String}

variable (py) in
/-- The context becomes a message with one block, which is volatile. -/
theorem anthropicMessage_context {context : JsonObject} (h : isCurrentContextItem context = true) :
    ∃ text, anthropicMessage py context = some ⟨.user, [textBlock text]⟩ ∧
      isVolatileBlock (textBlock text) = true := by
  rw [isCurrentContextItem, Bool.and_eq_true, decide_eq_true_eq] at h
  obtain ⟨hrole, htext⟩ := h
  cases hcontent : getOr context "content" with
  | str text =>
      rw [hcontent] at htext
      refine ⟨text, ?_, htext⟩
      rw [anthropicMessage, hrole, hcontent]
      rfl
  | _ =>
      rw [hcontent] at htext
      cases htext

/-- A message behind the others ends the last one of the merged. -/
theorem getLast?_mergeMessages (messages : List Message) (message : Message) :
    ∃ last front, (mergeMessages (messages ++ [message])).getLast? = some last ∧
      last.content = front ++ message.content := by
  rw [mergeMessages, List.foldl_append, List.foldl_cons, List.foldl_nil]
  rcases mergeStep_cases (messages.foldl AnthropicRequest.mergeStep []) message with
    ⟨front, last, -, -, hstep⟩ | ⟨-, hstep⟩
  · exact ⟨_, last.content, by rw [hstep, List.getLast?_concat], rfl⟩
  · exact ⟨message, [], by rw [hstep, List.getLast?_concat], rfl⟩

/-- The second are the first blocks, up to a marker on one in such a place. -/
def MarkedOnce (ttl : Option String) (blocks marked : List (Role × Block)) (p : Nat → Prop) : Prop :=
  marked = blocks ∨ ∃ n, MarkedAt ttl blocks marked n ∧ p n

theorem MarkedOnce.unmark {blocks marked : List (Role × Block)} {p : Nat → Prop}
    (h : MarkedOnce ttl blocks marked p) :
    marked.map AnthropicRequest.unmark = blocks.map AnthropicRequest.unmark := by
  rcases h with rfl | ⟨n, hmarked, -⟩
  · rfl
  · exact hmarked.unmark

/-- What is made of a history and a context behind it: the marker, if there
is one, is in the history. -/
theorem requestMessages_context {history : List JsonObject} {context : JsonObject}
    {messages : List Message} (hcontext : isCurrentContextItem context = true)
    (h : requestMessages py ttl (history ++ [context]) = some messages) :
    ∃ converted last, history.mapM (anthropicMessage py) = some converted ∧
      anthropicMessage py context = some last ∧ Alternates messages ∧
      MarkedOnce ttl (blocksOf (converted ++ [last])) (blocksOf messages)
        fun n => n < (blocksOf converted).length := by
  obtain ⟨text, hmessage, hvolatile⟩ := anthropicMessage_context py hcontext
  obtain ⟨all, hall, rfl⟩ := Option.map_eq_some_iff.mp h
  rw [List.mapM_append, Option.bind_eq_bind, Option.bind_eq_some_iff] at hall
  obtain ⟨converted, hconverted, hall⟩ := hall
  rw [List.mapM_cons, hmessage, List.mapM_nil] at hall
  have heq : some (converted ++ [⟨.user, [textBlock text]⟩]) = some all := hall
  obtain rfl := Option.some.inj heq
  refine ⟨converted, _, hconverted, hmessage, ?_⟩
  obtain ⟨halternates, hmarked⟩ :=
    markHistoryBreakpoint_spec ttl (alternates_mergeMessages (converted ++ [⟨.user, [textBlock text]⟩]))
  rw [blocksOf_mergeMessages] at hmarked
  refine ⟨halternates, hmarked.imp id fun ⟨n, hat, htail⟩ => ⟨n, hat, ?_⟩⟩
  obtain ⟨last, front, hlast, hcontent⟩ :=
    getLast?_mergeMessages converted ⟨.user, [textBlock text]⟩
  have hbefore := htail last hlast
  rw [hcontent, volatileTail, List.rtakeWhile_concat_pos _ _ _ hvolatile, List.length_append,
    blocksOf_append, List.length_append, blocksOf_singleton, List.length_map] at hbefore
  simp only [List.length_singleton] at hbefore
  omega

end

/-- **The cached prefix of a request is kept by the next one**, which has the
same history, some messages more and another context. Merged messages
alternate and say the same blocks; one block at most is marked, none of the
context's; and the blocks up to the mark, with their roles, begin the next
request. -/
theorem cached_prefix_stable (py : RequestPython) (ttl : Option String) (h a : List JsonObject)
    {c₁ c₂ : JsonObject} {P₁ P₂ : List Message} (hc₁ : isCurrentContextItem c₁ = true)
    (hc₂ : isCurrentContextItem c₂ = true) (h₁ : requestMessages py ttl (h ++ [c₁]) = some P₁)
    (h₂ : requestMessages py ttl (h ++ a ++ [c₂]) = some P₂) :
    ∃ hs more m₁ m₂, h.mapM (anthropicMessage py) = some hs ∧
      a.mapM (anthropicMessage py) = some more ∧
      anthropicMessage py c₁ = some m₁ ∧ anthropicMessage py c₂ = some m₂ ∧
      Alternates P₁ ∧ Alternates P₂ ∧
      blocksOf (mergeMessages (hs ++ [m₁])) = blocksOf (hs ++ [m₁]) ∧
      blocksOf (mergeMessages (hs ++ more ++ [m₂])) = blocksOf (hs ++ more ++ [m₂]) ∧
      MarkedOnce ttl (blocksOf (hs ++ [m₁])) (blocksOf P₁) (fun n =>
        n < (blocksOf hs).length ∧
        ((blocksOf P₁).take (n + 1)).map unmark <+: (blocksOf P₂).map unmark) ∧
      MarkedOnce ttl (blocksOf (hs ++ more ++ [m₂])) (blocksOf P₂)
        (fun n => n < (blocksOf (hs ++ more)).length) := by
  obtain ⟨hs, m₁, hhs, hm₁, halternates₁, hmarked₁⟩ := requestMessages_context hc₁ h₁
  obtain ⟨all, m₂, hall, hm₂, halternates₂, hmarked₂⟩ := requestMessages_context hc₂ h₂
  rw [List.mapM_append, hhs, Option.bind_eq_bind, Option.bind_some, Option.bind_eq_some_iff] at hall
  obtain ⟨more, hmore, hall⟩ := hall
  have heq : some (hs ++ more) = some all := hall
  obtain rfl := Option.some.inj heq
  refine ⟨hs, more, m₁, m₂, hhs, hmore, hm₁, hm₂, halternates₁, halternates₂,
    blocksOf_mergeMessages _, blocksOf_mergeMessages _, ?_, hmarked₂⟩
  refine hmarked₁.imp id fun ⟨n, hat, hn⟩ => ⟨n, hat, hn, ?_⟩
  have hunmark₁ := hmarked₁.unmark
  have htake : ((blocksOf P₁).take (n + 1)).map unmark = ((blocksOf hs).map unmark).take (n + 1) := by
    rw [List.map_take, hunmark₁, blocksOf_append, List.map_append, List.take_append_of_le_length]
    rw [List.length_map]
    exact hn
  rw [htake, hmarked₂.unmark, List.append_assoc, blocksOf_append, List.map_append]
  exact (List.take_prefix _ _).trans (List.prefix_append _ _)

/-- An interpreter that is asked for nothing. -/
def idlePython : RequestPython where
  repr _ := ""
  toInt _ := none
  dumps _ := ""
  loads _ := none
  validBase64 _ := false
  scheme _ := none

def saying (role text : String) : JsonObject := [("role", .str role), ("content", .str text)]

/-- A question, then its answer, each with the context of the time. -/
theorem question_cached :
    ∃ P₁ P₂, requestMessages idlePython none
        ([saying "user" "Hello"] ++ [saying "user" "CURRENT_CONTEXT:\nday"]) = some P₁ ∧
      requestMessages idlePython none ([saying "user" "Hello"] ++ [saying "assistant" "Hi"] ++
        [saying "user" "CURRENT_CONTEXT:\nnight"]) = some P₂ ∧ Alternates P₁ ∧ Alternates P₂ := by
  obtain ⟨P₁, h₁⟩ : ∃ P, requestMessages idlePython none
      ([saying "user" "Hello"] ++ [saying "user" "CURRENT_CONTEXT:\nday"]) = some P := ⟨_, rfl⟩
  obtain ⟨P₂, h₂⟩ : ∃ P, requestMessages idlePython none ([saying "user" "Hello"] ++
      [saying "assistant" "Hi"] ++ [saying "user" "CURRENT_CONTEXT:\nnight"]) = some P := ⟨_, rfl⟩
  obtain ⟨-, -, -, -, -, -, -, -, halternates₁, halternates₂, -⟩ :=
    cached_prefix_stable idlePython none [saying "user" "Hello"] [saying "assistant" "Hi"]
      (by decide) (by decide) h₁ h₂
  exact ⟨P₁, P₂, h₁, h₂, halternates₁, halternates₂⟩

/-- A document that brings a marker of its own. -/
def markedDocument : Json :=
  .obj [("type", .str "document"), ("cache_control", .obj [("type", .str "ephemeral")])]

/-- Two of them keep their markers, beside the breakpoint. -/
theorem documents_keep_markers :
    ¬ ∀ P, requestMessages idlePython none
        ([[("role", .str "user"), ("content", .arr [markedDocument, markedDocument])]] ++
          [saying "user" "CURRENT_CONTEXT:\nday"]) = some P →
      (blocksOf P).countP isMarked ≤ 1 := by
  intro h
  exact absurd (h _ rfl) (by decide +kernel)

end AnthropicRequest

end MineBot
