import Mathlib
import MineBot.Json
import MineBot.RuntimeRecords

/-!
# The archive summary of a conversation

The summary lists the closed turns that are compacted, which the model no
longer sees, and counts those that are live. What the model sees is the live
window: the items from the last `max_turns` user items on.

The window counts the turns of the user, the summary the closed ones.
`summary_accounts_iff` says when the two are about the same turns.
-/

namespace MineBot

namespace ConversationArchive

/-! ## Items -/

/-- What is taken from Python: `str(value)`, `len(json.dumps(…))` and `json.loads`. -/
structure Python where
  str : Json → String
  dumpsLength : List Json → Nat
  loads : String → Option Json

/-- `item.get(name)` of an item that is a dictionary. -/
def field? (item : Json) (name : String) : Option Json :=
  match item with
  | .obj fields => Dict.get? fields name
  | _ => none

/-- `item.get(name) or …` -/
def truthyField? (item : Json) (name : String) : Option Json :=
  (field? item name).filter Json.truthy

/-- `_session_item_role(item) == role` -/
def hasRole (role : String) (item : Json) : Bool := field? item "role" = some (.str role)

/-- `item.get("type") == kind` -/
def hasType (kind : String) (item : Json) : Bool := field? item "type" = some (.str kind)

section

variable (py : Python)

/-- `str(value)`: a text is its own. -/
def strOf : Json → String
  | .str text => text
  | value => py.str value

/-! ## Closed turns -/

/-- A turn of the user, with the index of its first item. -/
structure Turn where
  ordinal : Nat
  start : Nat
  items : List Json

/-- The indices of the user's items. -/
def userStarts (items : List Json) : List Nat :=
  (List.range items.length).filter fun index => (items[index]?).any (hasRole "user")

/-- The turns of the user: each ends where the next begins. -/
def outerTurns (items : List Json) : List Turn :=
  let starts := userStarts items
  (List.range starts.length).map fun index =>
    let start := starts[index]?.getD 0
    let stop := starts[index + 1]?.getD items.length
    ⟨index + 1, start, (items.take stop).drop start⟩

/-- The indices of the items with the property. -/
def indicesOf (p : Json → Bool) (items : List Json) : List Nat :=
  (List.range items.length).filter fun index => (items[index]?).any p

/-- The calls of a turn have their outputs, and the assistant has the last word. -/
def isClosed (items : List Json) : Bool :=
  let callIds := (items.filter (hasType "function_call")).map fun item =>
    (((truthyField? item "call_id").or (truthyField? item "id")).map (strOf py)).getD ""
  let outputIds := (items.filter (hasType "function_call_output")).map fun item =>
    ((truthyField? item "call_id").map (strOf py)).getD ""
  let protocolClosed := callIds.all (· ≠ "") && outputIds.all (· ≠ "") && callIds.isPerm outputIds
  let lastProtocolIndex := (indicesOf
    (fun item => hasType "function_call" item || hasType "function_call_output" item)
    items).getLast?.getD 0
  protocolClosed && (indicesOf (hasRole "assistant") items).any (lastProtocolIndex < ·)

/-- `_closed_turns`. -/
def closedTurns (items : List Json) : List Turn :=
  (outerTurns items).filter fun turn => isClosed py turn.items

/-- `turn["handle"]` -/
def Turn.handle (scope : RuntimeScope) (turn : Turn) : String :=
  "conversation:" ++ scope.key ++ ":turn:" ++ toString turn.ordinal

/-! ## The window -/

/-- `bounded_session_input`. -/
def boundedSessionInput (history newItems : List Json) (maxTurns : ℕ+) : List Json :=
  let combined := history ++ newItems
  let starts := userStarts combined
  if starts.length ≤ maxTurns then combined
  else combined.drop (starts[starts.length - maxTurns]?.getD 0)

/-! ## Summaries -/

structure TurnSummary where
  handle : String
  turn : Nat
  user : String
  assistant : String
  tools : List String
  toolReasons : List String
  itemCount : Nat

/-- The text of a part of a content, if it is a text or a dictionary with one. -/
def partText : Json → Option String
  | .str text => some text
  | .obj fields =>
      ((truthyField? (.obj fields) "text").or (truthyField? (.obj fields) "content")).map (strOf py)
  | _ => none

/-- `_item_text`. -/
def itemText (item : Json) : String :=
  match field? item "content" with
  | some (.str text) => text
  | some (.arr parts) => " ".intercalate (parts.filterMap (partText py))
  | _ => ""

/-- The reason in the output of a call. -/
def outputReason (item : Json) : Option String :=
  let decoded := match field? item "output" with
    | some (.str output) => py.loads output
    | output => output
  decoded.bind fun value => (truthyField? value "reason").map (strOf py)

def clip (n : Nat) (text : String) : String := String.ofList (text.toList.take n)

/-- `_turn_summary`. -/
def turnSummary (scope : RuntimeScope) (turn : Turn) : TurnSummary where
  handle := turn.handle scope
  turn := turn.ordinal
  user := clip 1000 ((((turn.items.filter (hasRole "user")).map (itemText py)).find? (· ≠ "")).getD "")
  assistant := clip 1000
    ((((turn.items.filter (hasRole "assistant")).map (itemText py)).reverse.find? (· ≠ "")).getD "")
  tools := ((turn.items.filter (hasType "function_call")).filterMap fun item =>
    ((truthyField? item "name").map (strOf py)).filter (· ≠ "")).take 32
  toolReasons := ((turn.items.filter (hasType "function_call_output")).filterMap
    (outputReason py)).take 32
  itemCount := turn.items.length

structure Summary where
  scopeKey : String
  totalClosedTurns : Nat
  liveTurns : Nat
  compactedTurns : Nat
  coveredTurnHandles : List String
  recentCompacted : List TurnSummary
  liveItemCount : Nat
  liveItemChars : Nat
  archiveItemChars : Nat
  complete : Bool

/-- `_conversation_summary`. -/
def conversationSummary (items : List Json) (scope : RuntimeScope) (maxTurns : ℕ+) : Summary :=
  let turns := closedTurns py items
  let compacted := if maxTurns < turns.length then turns.take (turns.length - maxTurns) else []
  let liveItems := boundedSessionInput [] items maxTurns
  { scopeKey := scope.key
    totalClosedTurns := turns.length
    liveTurns := min turns.length maxTurns
    compactedTurns := compacted.length
    coveredTurnHandles := compacted.map (Turn.handle scope)
    recentCompacted := (compacted.drop (compacted.length - 20)).map (turnSummary py scope)
    liveItemCount := liveItems.length
    liveItemChars := py.dumpsLength liveItems
    archiveItemChars := py.dumpsLength items
    complete := true }

/-! ## The two partitions -/

/-- The turn lies in the live window. -/
def InWindow (items : List Json) (maxTurns : ℕ+) (turn : Turn) : Prop :=
  items.length - (boundedSessionInput [] items maxTurns).length ≤ turn.start

instance (items : List Json) (maxTurns : ℕ+) : DecidablePred (InWindow items maxTurns) :=
  fun _ => inferInstanceAs (Decidable (_ ≤ _))

/-- Each closed turn is either live or covered by the summary, which counts
the live ones. -/
structure Accounts (items : List Json) (scope : RuntimeScope) (maxTurns : ℕ+) : Prop where
  either : ∀ turn ∈ closedTurns py items, InWindow items maxTurns turn ↔
    turn.handle scope ∉ (conversationSummary py items scope maxTurns).coveredTurnHandles
  live : (conversationSummary py items scope maxTurns).liveTurns =
    ((closedTurns py items).filter (InWindow items maxTurns)).length

instance (items : List Json) (scope : RuntimeScope) (maxTurns : ℕ+) :
    Decidable (Accounts py items scope maxTurns) :=
  decidable_of_iff (_ ∧ _) ⟨fun h => ⟨h.1, h.2⟩, fun h => ⟨h.either, h.live⟩⟩

end

section

variable {py : Python} {items : List Json} {maxTurns : ℕ+}

theorem userStarts_sorted (items : List Json) : (userStarts items).Pairwise (· < ·) :=
  List.pairwise_lt_range.filter _

theorem userStarts_lt {i : Nat} (h : i ∈ userStarts items) : i < items.length :=
  List.mem_range.mp (List.mem_of_mem_filter h)

theorem length_outerTurns (items : List Json) :
    (outerTurns items).length = (userStarts items).length := by
  simp [outerTurns]

/-- A turn is in the window if it is one of the last `max_turns`. -/
theorem inWindow_iff {i : Nat} {turn : Turn} (h : (outerTurns items)[i]? = some turn) :
    InWindow items maxTurns turn ↔ (userStarts items).length - maxTurns ≤ i := by
  obtain ⟨hi, rfl⟩ := List.getElem?_eq_some_iff.mp h
  rw [length_outerTurns] at hi
  have hstart : (outerTurns items)[i].start = (userStarts items)[i] := by
    simp [outerTurns, hi]
  rw [InWindow, hstart, boundedSessionInput, List.nil_append]
  split
  · next hle => simp [Nat.sub_eq_zero_of_le hle]
  · next hgt =>
      have hlt : (userStarts items).length - maxTurns < (userStarts items).length := by
        have := maxTurns.pos
        omega
      have hmem := userStarts_lt (List.getElem_mem hlt)
      rw [List.getElem?_eq_getElem hlt, Option.getD_some, List.length_drop,
        Nat.sub_sub_self hmem.le]
      have hmono := List.pairwise_iff_getElem.mp (userStarts_sorted items)
      constructor
      · intro hle
        by_contra hlt'
        exact absurd (hmono _ _ hi hlt (not_le.mp hlt')) (not_lt.mpr hle)
      · intro hle
        rcases hle.eq_or_lt with heq | hlt'
        · simp only [heq, le_refl]
        · exact (hmono _ _ hlt hi hlt').le

theorem handle_inj {scope : RuntimeScope} {turn turn' : Turn}
    (h : turn.handle scope = turn'.handle scope) : turn.ordinal = turn'.ordinal :=
  Nat.repr_injective (String.append_right_inj _ |>.mp h)

theorem ordinal_outerTurns {i : Nat} {turn : Turn} (h : (outerTurns items)[i]? = some turn) :
    turn.ordinal = i + 1 := by
  obtain ⟨hi, rfl⟩ := List.getElem?_eq_some_iff.mp h
  simp [outerTurns]

variable (py items maxTurns)

/-- The closed turns before the window, and those in it. -/
def closedBefore : List Turn :=
  ((outerTurns items).take ((outerTurns items).length - maxTurns)).filter fun turn =>
    isClosed py turn.items

def closedWithin : List Turn :=
  ((outerTurns items).drop ((outerTurns items).length - maxTurns)).filter fun turn =>
    isClosed py turn.items

theorem closedTurns_eq :
    closedTurns py items = closedBefore py items maxTurns ++ closedWithin py items maxTurns := by
  rw [closedBefore, closedWithin, ← List.filter_append, List.take_append_drop, closedTurns]

variable {py items maxTurns}

theorem mem_closedBefore {turn : Turn} (h : turn ∈ closedBefore py items maxTurns) :
    ∃ i < (outerTurns items).length - maxTurns, (outerTurns items)[i]? = some turn := by
  obtain ⟨i, hi⟩ := List.mem_iff_getElem?.mp (List.mem_of_mem_filter h)
  rw [List.getElem?_take] at hi
  split at hi
  · next hlt => exact ⟨i, hlt, hi⟩
  · cases hi

theorem mem_closedWithin {turn : Turn} (h : turn ∈ closedWithin py items maxTurns) :
    ∃ i, (outerTurns items).length - maxTurns ≤ i ∧ (outerTurns items)[i]? = some turn := by
  obtain ⟨i, hi⟩ := List.mem_iff_getElem?.mp (List.mem_of_mem_filter h)
  rw [List.getElem?_drop] at hi
  exact ⟨_, Nat.le_add_right _ i, hi⟩

theorem not_inWindow_before {turn : Turn} (h : turn ∈ closedBefore py items maxTurns) :
    ¬ InWindow items maxTurns turn := by
  obtain ⟨i, hlt, hi⟩ := mem_closedBefore h
  rw [inWindow_iff hi, ← length_outerTurns]
  exact not_le.mpr hlt

theorem inWindow_within {turn : Turn} (h : turn ∈ closedWithin py items maxTurns) :
    InWindow items maxTurns turn := by
  obtain ⟨i, hle, hi⟩ := mem_closedWithin h
  rw [inWindow_iff hi, ← length_outerTurns]
  exact hle

theorem filter_inWindow : (closedTurns py items).filter (InWindow items maxTurns) =
    closedWithin py items maxTurns := by
  rw [closedTurns_eq py items maxTurns, List.filter_append, List.filter_eq_nil_iff.mpr,
    List.filter_eq_self.mpr, List.nil_append]
  · intro turn h
    exact decide_eq_true (inWindow_within h)
  · intro turn h hin
    exact not_inWindow_before h (of_decide_eq_true hin)

theorem length_closedWithin_le : (closedWithin py items maxTurns).length ≤ maxTurns := by
  refine (List.length_filter_le _ _).trans ?_
  rw [List.length_drop]
  omega

/-- Where the count is right, the turns covered are those before the window. -/
theorem covered_eq {scope : RuntimeScope}
    (h : min (closedTurns py items).length maxTurns = (closedWithin py items maxTurns).length) :
    (conversationSummary py items scope maxTurns).coveredTurnHandles =
      (closedBefore py items maxTurns).map (Turn.handle scope) := by
  have hlength := congrArg List.length (closedTurns_eq py items maxTurns)
  rw [List.length_append] at hlength
  simp only [conversationSummary]
  split
  · have htake : (closedTurns py items).length - maxTurns
        = (closedBefore py items maxTurns).length := by omega
    rw [htake, closedTurns_eq py items maxTurns, List.take_left]
  · have hnil : closedBefore py items maxTurns = [] := List.length_eq_zero_iff.mp (by omega)
    rw [hnil]

/-- The count is all there is to it. -/
theorem accounts_iff_count {scope : RuntimeScope} : Accounts py items scope maxTurns ↔
    min (closedTurns py items).length maxTurns = (closedWithin py items maxTurns).length := by
  constructor
  · intro h
    have := h.live
    rwa [filter_inWindow] at this
  · intro h
    refine ⟨fun turn hturn => ?_, by rw [filter_inWindow]; exact h⟩
    rw [covered_eq h]
    rw [closedTurns_eq py items maxTurns, List.mem_append] at hturn
    rcases hturn with hturn | hturn
    · exact iff_of_false (not_inWindow_before hturn) (not_not.mpr (List.mem_map_of_mem hturn))
    · refine iff_of_true (inWindow_within hturn) fun hmem => ?_
      obtain ⟨turn', hturn', heq⟩ := List.mem_map.mp hmem
      obtain ⟨i, hlt, hi⟩ := mem_closedBefore hturn'
      obtain ⟨j, hle, hj⟩ := mem_closedWithin hturn
      have hordinal := handle_inj heq
      rw [ordinal_outerTurns hi, ordinal_outerTurns hj] at hordinal
      omega

end

/-- **The summary accounts for every closed turn** exactly if no turn before
the last `max_turns` is closed or these are all closed. -/
theorem summary_accounts_iff (py : Python) (items : List Json) (scope : RuntimeScope)
    (maxTurns : ℕ+) :
    Accounts py items scope maxTurns ↔
      (∀ turn ∈ (outerTurns items).take ((outerTurns items).length - maxTurns),
        isClosed py turn.items = false) ∨
      ∀ turn ∈ (outerTurns items).drop ((outerTurns items).length - maxTurns),
        isClosed py turn.items = true := by
  have hlength := congrArg List.length (closedTurns_eq py items maxTurns)
  rw [List.length_append] at hlength
  have hle : (closedWithin py items maxTurns).length ≤ maxTurns := length_closedWithin_le
  have hbefore : (∀ turn ∈ (outerTurns items).take ((outerTurns items).length - maxTurns),
      isClosed py turn.items = false) ↔ (closedBefore py items maxTurns).length = 0 := by
    rw [List.length_eq_zero_iff, closedBefore, List.filter_eq_nil_iff]
    simp only [Bool.not_eq_true]
  have hwithin : (∀ turn ∈ (outerTurns items).drop ((outerTurns items).length - maxTurns),
      isClosed py turn.items = true) ↔ (closedWithin py items maxTurns).length
        = (outerTurns items).length - ((outerTurns items).length - maxTurns) := by
    rw [closedWithin, ← List.length_filter_eq_length_iff, List.length_drop]
  have hnone : (outerTurns items).length ≤ maxTurns →
      (closedBefore py items maxTurns).length = 0 := by
    intro hsmall
    rw [closedBefore, Nat.sub_eq_zero_of_le hsmall]
    rfl
  rw [accounts_iff_count, hbefore, hwithin]
  omega

/-- One message is not answered yet: the turn before it has left the window
of one turn, and the summary counts it as live. -/
theorem unanswered_turn_lost :
    ¬ Accounts ⟨fun _ => "", fun _ => 0, fun _ => none⟩
      [.obj [("role", .str "user")], .obj [("role", .str "assistant")],
        .obj [("role", .str "user")]] ⟨"scope", "Bot1"⟩ 1 := by
  decide +kernel

end ConversationArchive

end MineBot
