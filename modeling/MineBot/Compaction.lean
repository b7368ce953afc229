import Mathlib
import MineBot.History
import MineBot.Json
import MineBot.Text

/-!
# Compaction of the conversation

`ConversationCompactor` shows a history that only grows: the player's
messages before a boundary, a summary of what lies before it, and every
item from it on. The boundary is remembered as the fingerprint of its
item and searched for again in each history, from the front.

The sizes of items, the fingerprint and whether a request is over the
threshold are parameters: no result depends on them. The boundary is
found again where no earlier item has the same fingerprint, and it
splits no call from its output where none before it still waits for one
(`view_faithful`).
-/

namespace MineBot

namespace ConversationCompactor

/-! ## Items -/

/-- An item of a conversation. -/
abbrev Item := JsonObject

/-- `_field(item, name)`. -/
def field (item : Item) (name : String) : Json := (item.get? name).getD .null

def isType (item : Item) (type : String) : Bool := field item "type" = .str type

/-- `_is_user`. -/
def isUser (item : Item) : Bool := field item "role" = .str "user"

def summaryHeader : String := "CONVERSATION_SUMMARY (historical, not a new request):"

def harnessFactPrefix : String := "HARNESS_FACT: "

/-- `_is_summary`. -/
def isSummary (item : Item) : Bool :=
  isUser item && match field item "content" with
    | .str content => summaryHeader.toList.isPrefixOf content.toList
    | _ => false

/-- `_player_part`. -/
def playerPart (item : Item) : Option Item :=
  match field item "content" with
  | .str content =>
      if harnessFactPrefix.toList <:+: content.toList then
        let spoken := ['\n'].intercalate ((content.toList.splitOn '\n').filter fun line =>
          !harnessFactPrefix.toList.isPrefixOf line)
        if spoken.all isPySpace then none
        else some (item.set "content" (.str (.ofList spoken)))
      else some item
  | _ => some item

/-- `_player_messages`. -/
def playerMessages (items : List Item) : List Item :=
  items.foldl (fun kept item =>
    if isUser item && !isSummary item then
      match playerPart item with
      | none => kept
      | some item =>
          if kept.getLast?.any fun last => (field last "content").pyEq (field item "content")
          then kept else kept ++ [item]
    else kept) []

/-- The summary as the model is shown it. -/
def summaryItem (summary : String) : Item :=
  [("role", .str "user"), ("content", .str (summaryHeader ++ "\n" ++ summary))]

/-! ## The compactor -/

/-- `_Compaction`. -/
structure Compaction (φ : Type) where
  anchor : φ
  summary : String

section

variable {φ : Type} [DecidableEq φ] (fingerprint : Item → φ) (size : Item → Nat)
  (tailChars minGainChars : Int)

/-- `_anchor_index` of a compaction. -/
def anchorIndex (items : List Item) (anchor : φ) : Option Nat :=
  items.findIdx? fun item => fingerprint item = anchor

/-- `_render`. -/
def render (items : List Item) : Option (Nat × String) → List Item
  | none => items
  | some (start, summary) =>
      playerMessages (items.take start) ++ summaryItem summary :: items.drop start

/-! ### The tail -/

/-- The first loop of `_tail_start`: back from the end while the budget lasts. -/
def budgetStart (items : List Item) (first : Nat) : Nat → Int → Nat
  | 0, _ => 0
  | index + 1, budget =>
      if first + 1 < index + 1 then
        let chars : Int := (items[index]?.map size).getD 0
        if budget < chars ∧ index + 1 < items.length then index + 1
        else budgetStart items first index (budget - chars)
      else index + 1

/-- `calls`: where each call is. -/
def calls (items : List Item) : Dict Json Nat :=
  items.zipIdx.foldl (fun calls (item, position) =>
    if isType item "function_call" then calls.set (field item "call_id") position else calls) []

/-- An output of the tail whose call lies before it. -/
def splitCall (items : List Item) (index : Nat) : Option Nat :=
  (items.drop index).findSome? fun item =>
    if isType item "function_call_output" then
      ((calls items).get? (field item "call_id")).filter (· < index)
    else none

/-- A reasoning item belongs to the item that follows it. -/
def skipReasoning (items : List Item) (first : Nat) : Nat → Nat
  | 0 => 0
  | index + 1 =>
      if first < index + 1 ∧ items[index]?.any (isType · "reasoning") then
        skipReasoning items first index
      else index + 1

/-- One pass of the second loop of `_tail_start`. -/
def pull (items : List Item) (first index : Nat) : Nat :=
  skipReasoning items first ((splitCall items index).getD index)

/-- The second loop: it ends with the pass that moves nothing. Each pass that
moves goes back, so there are at most `index` of them. -/
def settle (items : List Item) (first : Nat) : Nat → Nat → Nat
  | 0, index => index
  | fuel + 1, index =>
      if pull items first index = index then index
      else settle items first fuel (pull items first index)

/-- `_tail_start`. -/
def tailStart (items : List Item) (first : Nat) : Option Nat :=
  let start := budgetStart size items first items.length tailChars
  let index := settle items first start start
  if index ≤ first ∨ items.length ≤ index then none else some index

/-! ### A view -/

def maxItemChars : Nat := 32000

/-- The summary that is kept of what `summarize` returned; `none` is an
exception. -/
def summaryText (previous : String) (older : Nat) (outcome : Option String) : String :=
  let stripped := (((outcome.getD "").toList.dropWhile isPySpace).reverse.dropWhile
    isPySpace).reverse
  let summary := if stripped.isEmpty then
      (if previous = "" then "" else previous ++ "\n")
        ++ s!"[{older} older conversation items could not be summarized and are omitted. "
        ++ "Use the conversation archive tools if an older exact exchange is needed.]"
    else .ofList stripped
  if maxItemChars < summary.length then
    .ofList (summary.toList.take maxItemChars)
      ++ s!"\n[{summary.length - maxItemChars} further characters of this summary omitted]"
  else summary

/-- One call of `view`. -/
structure ViewCall where
  /-- how much of the history there is -/
  length : Nat
  /-- the estimate reaches the threshold -/
  isOver : Bool
  /-- what `summarize` would return -/
  outcome : Option String

/-- What a call of `view` does: the view, and the items that `summarize` was
given. -/
structure Viewed where
  view : List Item
  transcript : List Item := []

/-- The boundary of a compaction in a history. -/
def boundaryOf (items : List Item) (c : Option (Compaction φ)) : Option (Nat × Compaction φ) :=
  c.bind fun compaction => (anchorIndex fingerprint items compaction.anchor).map (·, compaction)

/-- Where `_compact` cuts; `none` where it defers. -/
def cut (items : List Item) (first : Nat) : Option Nat :=
  (tailStart size tailChars items first).filter fun tail =>
    minGainChars ≤ ((((items.take tail).drop first).map size).sum : Int)

/-- `view`. -/
def view (c : Option (Compaction φ)) (items : List Item) (isOver : Bool)
    (outcome : Option String) : Viewed × Option (Compaction φ) :=
  let found := boundaryOf fingerprint items c
  let shown : List Item := render items (found.map fun (start, compaction) =>
    (start, compaction.summary))
  let first := (found.map (·.1)).getD 0
  let kept := found.map (·.2)
  match if isOver then cut size tailChars minGainChars items first else none with
  | none => (⟨shown, []⟩, kept)
  | some tail =>
      let older := (items.take tail).drop first
      let previous := (kept.map (·.summary)).getD ""
      let summary := summaryText previous older.length outcome
      (⟨render items (some (tail, summary)), older⟩,
        items[tail]?.map fun item => ⟨fingerprint item, summary⟩)

/-- A call of `view` on a history that has grown so far. -/
def step (history : List Item) (c : Option (Compaction φ)) (call : ViewCall) :
    Viewed × Option (Compaction φ) :=
  view fingerprint size tailChars minGainChars c (history.take call.length) call.isOver call.outcome

end

/-! ## The tail -/

section

variable {items : List Item} {first index : Nat}

theorem skipReasoning_le (index : Nat) : skipReasoning items first index ≤ index := by
  induction index with
  | zero => exact Nat.le_refl 0
  | succ index ih =>
      rw [skipReasoning]
      split
      · exact Nat.le_trans ih (Nat.le_succ index)
      · exact Nat.le_refl _

theorem splitCall_lt {call : Nat} (h : splitCall items index = some call) : call < index := by
  obtain ⟨item, -, hitem⟩ := List.exists_of_findSome?_eq_some h
  split at hitem
  · exact of_decide_eq_true (Option.filter_eq_some_iff.mp hitem).2
  · cases hitem

theorem pull_le (index : Nat) : pull items first index ≤ index := by
  refine Nat.le_trans (skipReasoning_le _) ?_
  cases h : splitCall items index with
  | none => exact Nat.le_refl _
  | some call => exact Nat.le_of_lt (splitCall_lt h)

theorem settle_le (fuel : Nat) : ∀ index, settle items first fuel index ≤ index := by
  induction fuel with
  | zero => exact fun index => Nat.le_refl index
  | succ fuel ih =>
      intro index
      rw [settle]
      split
      · exact Nat.le_refl _
      · exact Nat.le_trans (ih _) (pull_le index)

/-- The passes end in one that moves nothing. -/
theorem pull_settle (fuel : Nat) : ∀ index, index ≤ fuel →
    pull items first (settle items first fuel index) = settle items first fuel index := by
  induction fuel with
  | zero =>
      intro index hle
      have hpull : pull items first index ≤ index := pull_le index
      have hzero : index = 0 := Nat.le_zero.mp hle
      subst hzero
      exact Nat.le_zero.mp hpull
  | succ fuel ih =>
      intro index hle
      rw [settle]
      split
      · next hfix => exact hfix
      · next hmoves =>
          have hlt : pull items first index < index := Nat.lt_of_le_of_ne (pull_le index) hmoves
          exact ih _ (by omega)

/-- Where nothing moves, no output of the tail has its call before it, and no
reasoning item lies right before it. -/
theorem tail_of_pull (h : pull items first index = index) :
    splitCall items index = none
      ∧ (first < index → ∀ item, items[index - 1]? = some item → ¬ isType item "reasoning") := by
  have hnone : splitCall items index = none := by
    cases hsplit : splitCall items index with
    | none => rfl
    | some call =>
        have hle : pull items first index ≤ call := by
          rw [pull, hsplit]
          exact skipReasoning_le call
        have hlt := splitCall_lt hsplit
        omega
  refine ⟨hnone, fun hfirst item hitem hreasoning => ?_⟩
  rw [pull, hnone, Option.getD_none] at h
  cases index with
  | zero => exact absurd hfirst (Nat.not_lt_zero first)
  | succ index =>
      have hitem : items[index]? = some item := hitem
      rw [skipReasoning, if_pos ⟨hfirst, by simp [hitem, hreasoning]⟩] at h
      have hle : skipReasoning items first index ≤ index := skipReasoning_le index
      omega

end

/-! ## Calls -/

theorem calls_concat (items : List Item) (item : Item) :
    calls (items ++ [item]) = if isType item "function_call" then
      (calls items).set (field item "call_id") items.length else calls items := by
  simp [calls, List.zipIdx_append]

/-- What `calls` holds under an id is a call of that id. -/
theorem calls_sound {items : List Item} {id : Json} {position : Nat}
    (h : (calls items).get? id = some position) :
    ∃ item, items[position]? = some item ∧ isType item "function_call"
      ∧ field item "call_id" = id := by
  induction items using List.reverseRecOn with
  | nil => cases h
  | append_singleton items last ih =>
      rw [calls_concat] at h
      have hold : (calls items).get? id = some position →
          ∃ item, (items ++ [last])[position]? = some item ∧ isType item "function_call"
            ∧ field item "call_id" = id := by
        intro h
        obtain ⟨item, hitem, hrest⟩ := ih h
        have hlt := (List.getElem?_eq_some_iff.mp hitem).1
        exact ⟨item, (List.getElem?_append_left hlt).trans hitem, hrest⟩
      split at h
      · next hcall =>
          rw [Dict.get?_set] at h
          split at h
          · next hid =>
              cases h
              exact ⟨last, by simp, hcall, hid.symm⟩
          · exact hold h
      · exact hold h

/-- Every call is under its id, or another one of that id is. -/
theorem calls_complete {items : List Item} {item : Item} {position : Nat}
    (h : items[position]? = some item) (hcall : isType item "function_call") :
    ∃ other, (calls items).get? (field item "call_id") = some other := by
  induction items using List.reverseRecOn with
  | nil => cases h
  | append_singleton items last ih =>
      rw [calls_concat]
      rcases Nat.lt_or_ge position items.length with hlt | hge
      · rw [List.getElem?_append_left hlt] at h
        obtain ⟨other, hother⟩ := ih h
        split
        · rw [Dict.get?_set]
          split
          · exact ⟨_, rfl⟩
          · exact ⟨other, hother⟩
        · exact ⟨other, hother⟩
      · rw [List.getElem?_append_right hge] at h
        obtain ⟨-, rfl⟩ : position - items.length = 0 ∧ last = item := by
          cases hsub : position - items.length with
          | zero => simpa [hsub] using h
          | succ n => simp [hsub] at h
        rw [if_pos hcall, Dict.get?_set, if_pos rfl]
        exact ⟨_, rfl⟩

/-! ## Histories -/

/-- Each output follows a call of its id, and no two calls share an id. -/
structure WellFormed (history : List Item) : Prop where
  unique : ∀ (i j : Nat) x y, history[i]? = some x → history[j]? = some y →
    isType x "function_call" → isType y "function_call" →
    field x "call_id" = field y "call_id" → i = j
  answers : ∀ (j : Nat) y, history[j]? = some y → isType y "function_call_output" →
    ∃ i x, i < j ∧ history[i]? = some x ∧ isType x "function_call"
      ∧ field x "call_id" = field y "call_id"

/-- The call that an output answers. -/
def Answers (history : List Item) (i j : Nat) : Prop :=
  ∃ x y, history[i]? = some x ∧ history[j]? = some y ∧ isType x "function_call"
    ∧ isType y "function_call_output" ∧ field x "call_id" = field y "call_id"

/-- The part of a history between a boundary and an end keeps every output's call
and the reasoning right before that call. -/
structure Keeps (history : List Item) (boundary length : Nat) : Prop where
  call : ∀ i j, Answers history i j → boundary ≤ j → j < length → boundary ≤ i
  reasoning : 0 < boundary → ∀ x, history[boundary - 1]? = some x → ¬ isType x "reasoning"

theorem getElem?_of_take {history : List Item} {n i : Nat} {x : Item}
    (h : (history.take n)[i]? = some x) : i < n ∧ history[i]? = some x := by
  rw [List.getElem?_take] at h
  split at h
  · next hlt => exact ⟨hlt, h⟩
  · cases h

/-- A cut keeps the calls of the outputs that are there. -/
theorem keeps_of_tailStart {size : Item → Nat} {tailChars : Int} {history : List Item}
    {n first tail : Nat} (hwf : WellFormed history)
    (h : tailStart size tailChars (history.take n) first = some tail) :
    first < tail ∧ tail < n ∧ tail < history.length ∧ Keeps history tail n := by
  simp only [tailStart] at h
  split at h
  · cases h
  · next hin =>
      set start := budgetStart size (history.take n) first (history.take n).length tailChars
      have hfix : pull (history.take n) first (settle (history.take n) first start start)
          = settle (history.take n) first start start := pull_settle start start (Nat.le_refl _)
      cases h
      set tail := settle (history.take n) first _ _
      obtain ⟨hsplit, hreasoning⟩ := tail_of_pull hfix
      have hlength : (history.take n).length = min n history.length := List.length_take
      refine ⟨by omega, by omega, by omega, ?_, ?_⟩
      · rintro i j ⟨x, y, hx, hy, hcall, hout, hid⟩ hj hjn
        by_contra hlt
        have htake : ∀ k, k < n → (history.take n)[k]? = history[k]? := fun k hk => by
          rw [List.getElem?_take, if_pos hk]
        have hxtake : (history.take n)[i]? = some x := by rw [htake i (by omega), hx]
        obtain ⟨other, hother⟩ := calls_complete hxtake hcall
        obtain ⟨x', hx', hcall', hid'⟩ := calls_sound hother
        have hsame : other = i := hwf.unique other i x' x 
          (getElem?_of_take hx').2 hx hcall' hcall hid'
        have hydrop : ((history.take n).drop tail)[j - tail]? = some y := by
          rw [List.getElem?_drop, Nat.add_sub_cancel' hj, htake j hjn, hy]
        have hnone := List.findSome?_eq_none_iff.mp hsplit y (List.mem_of_getElem? hydrop)
        rw [if_pos hout, ← hid, hother, hsame, Option.filter_some, if_pos] at hnone
        · cases hnone
        · exact decide_eq_true (Nat.lt_of_not_le hlt)
      · intro hpos x hx
        refine hreasoning (by omega) x ?_
        rw [List.getElem?_take, if_pos (by omega), hx]

/-! ## Runs -/

section

variable {φ : Type} [DecidableEq φ] (fingerprint : Item → φ) (size : Item → Nat)
  (tailChars minGainChars : Int) (history : List Item)

abbrev Log := List (ViewCall × Viewed)

/-- Every item that `summarize` was given, in order. -/
def transcripts (log : Log) : List Item := log.flatMap (·.2.transcript)

/-- How much of the history the last call saw. -/
def lastLength (log : Log) : Nat := (log.getLast?.map (·.1.length)).getD 0

/-- The boundary that a compactor holds. -/
def boundary (c : Option (Compaction φ)) : Nat :=
  ((boundaryOf fingerprint history c).map (·.1)).getD 0

/-- The history only grows, and where a call cuts it, no item before the cut has
the fingerprint of the item there, and no call before the cut still waits for
its output. -/
def CutOk (log : Log) (c : Option (Compaction φ)) (call : ViewCall) : Prop :=
  lastLength log ≤ call.length ∧ call.length ≤ history.length
    ∧ ∀ tail, call.isOver = true →
      cut size tailChars minGainChars (history.take call.length) (boundary fingerprint history c)
        = some tail →
      (∀ (j : Nat) x y, j < tail → history[j]? = some x → history[tail]? = some y →
          fingerprint x ≠ fingerprint y)
        ∧ ∀ i j, Answers history i j → call.length ≤ j → tail ≤ i

/-- A compactor that stands at a boundary: it finds it again, the transcripts
are what lies before it, and what lies behind it is kept whole. -/
structure Stands (log : Log) (c : Option (Compaction φ)) : Prop where
  length : lastLength log ≤ history.length
  found : ∀ compaction, c = some compaction →
    anchorIndex fingerprint history compaction.anchor = some (boundary fingerprint history c)
      ∧ boundary fingerprint history c < lastLength log
  transcripts : transcripts log = history.take (boundary fingerprint history c)
  keeps : ∀ n, Keeps history (boundary fingerprint history c) n

variable {fingerprint size tailChars minGainChars history}

theorem boundary_none : boundary fingerprint history none = 0 := rfl

theorem anchorIndex_take {anchor : φ} {b n : Nat}
    (h : anchorIndex fingerprint history anchor = some b) (hlt : b < n) :
    anchorIndex fingerprint (history.take n) anchor = some b := by
  rw [anchorIndex, List.findIdx?_eq_some_iff_getElem] at h ⊢
  obtain ⟨hb, hp, hbefore⟩ := h
  refine ⟨by simp; omega, by simpa using hp, fun j hj => ?_⟩
  simpa using hbefore j hj

/-- A later call finds the boundary where it is. -/
theorem Stands.boundaryOf {log : Log} {c : Option (Compaction φ)}
    (h : Stands fingerprint history log c) {n : Nat} (hn : lastLength log ≤ n) :
    ConversationCompactor.boundaryOf fingerprint (history.take n) c
      = c.map fun compaction => (boundary fingerprint history c, compaction) := by
  cases c with
  | none => rfl
  | some compaction =>
      obtain ⟨hfound, hlt⟩ := h.found compaction rfl
      simp only [ConversationCompactor.boundaryOf, Option.bind_some, Option.map_some]
      rw [anchorIndex_take hfound (by omega)]
      rfl

/-- The boundary of a new compaction is its cut. -/
theorem boundary_cut {tail : Nat} {y : Item} {summary : String} (hy : history[tail]? = some y)
    (hfresh : ∀ (j : Nat) x, j < tail → history[j]? = some x → fingerprint x ≠ fingerprint y) :
    anchorIndex fingerprint history (fingerprint y) = some tail
      ∧ boundary fingerprint history (some ⟨fingerprint y, summary⟩) = tail := by
  have hfound : anchorIndex fingerprint history (fingerprint y) = some tail := by
    rw [anchorIndex, List.findIdx?_eq_some_iff_getElem]
    obtain ⟨hlt, rfl⟩ := List.getElem?_eq_some_iff.mp hy
    refine ⟨hlt, by simp, fun j hj => ?_⟩
    simpa using hfresh j _ hj (List.getElem?_eq_getElem (by omega))
  refine ⟨hfound, ?_⟩
  simp [boundary, ConversationCompactor.boundaryOf, hfound]

variable (history) in
/-- What a call shows and what it hands to `summarize`. -/
structure Shows (call : ViewCall) (v : Viewed) (b b' : Nat) (c' : Option (Compaction φ)) :
    Prop where
  view : v.view = render (history.take call.length) (c'.map fun compaction =>
    (b', compaction.summary))
  transcript : v.transcript = (history.take b').drop b
  forward : b ≤ b'
  inside : b' ≤ call.length

theorem step_stands (hwf : WellFormed history) {log : Log} {c : Option (Compaction φ)}
    (h : Stands fingerprint history log c) {call : ViewCall}
    (hok : CutOk fingerprint size tailChars minGainChars history log c call) :
    Stands fingerprint history
        (log ++ [(call, (step fingerprint size tailChars minGainChars history c call).1)])
        (step fingerprint size tailChars minGainChars history c call).2
      ∧ Shows history call
          (step fingerprint size tailChars minGainChars history c call).1
          (boundary fingerprint history c)
          (boundary fingerprint history
            (step fingerprint size tailChars minGainChars history c call).2)
          (step fingerprint size tailChars minGainChars history c call).2 := by
  obtain ⟨hgrows, hlength, hcut⟩ := hok
  have hfound := h.boundaryOf hgrows
  have hfirst : ((ConversationCompactor.boundaryOf fingerprint (history.take call.length) c).map
      (·.1)).getD 0 = boundary fingerprint history c := by
    rw [hfound]
    cases c <;> rfl
  have hkept : (ConversationCompactor.boundaryOf fingerprint (history.take call.length) c).map
      (·.2) = c := by
    rw [hfound]
    cases c <;> rfl
  have hinside : boundary fingerprint history c ≤ call.length := by
    cases hc : c with
    | none => exact Nat.zero_le _
    | some compaction =>
        have hlt := (h.found compaction hc).2
        rw [hc] at hlt
        omega
  set b := boundary fingerprint history c with hb
  set items := history.take call.length with hitems
  have hlast : ∀ v, lastLength (log ++ [(call, v)]) = call.length := fun v => by
    simp [lastLength]
  have htranscripts : ∀ v : Viewed, ConversationCompactor.transcripts (log ++ [(call, v)])
      = history.take b ++ v.transcript := fun v => by
    rw [ConversationCompactor.transcripts, List.flatMap_append]
    congr 1
    · exact h.transcripts
    · simp
  cases hcuts : (if call.isOver then cut size tailChars minGainChars items b else none) with
  | none =>
      have hstep : step fingerprint size tailChars minGainChars history c call
          = (⟨render items (c.map fun compaction => (b, compaction.summary)), []⟩, c) := by
        simp only [step, ConversationCompactor.view, ← hitems, hfirst, hkept, hcuts]
        rw [hfound, Option.map_map]
        rfl
      rw [hstep]
      refine ⟨⟨(hlast _).le.trans hlength, fun compaction hc => ?_, ?_, h.keeps⟩, rfl, ?_,
        Nat.le_refl _, hinside⟩
      · obtain ⟨hanchor, hlt⟩ := h.found compaction hc
        exact ⟨hanchor, by rw [hlast]; exact Nat.lt_of_lt_of_le hlt hgrows⟩
      · rw [htranscripts, List.append_nil]
      · exact (List.drop_eq_nil_of_le (List.length_take_le _ _)).symm
  | some tail =>
      have hover : call.isOver = true := by
        cases hover : call.isOver with
        | true => rfl
        | false => simp [hover] at hcuts
      rw [if_pos hover] at hcuts
      obtain ⟨hfresh, hwaits⟩ := hcut tail hover hcuts
      have htail : tailStart size tailChars items b = some tail :=
        (Option.filter_eq_some_iff.mp hcuts).1
      obtain ⟨hbt, htn, hth, hkeeps⟩ := keeps_of_tailStart hwf htail
      obtain ⟨y, hy⟩ : ∃ y, history[tail]? = some y := ⟨_, List.getElem?_eq_getElem hth⟩
      have hyitems : items[tail]? = some y := by
        rw [hitems, List.getElem?_take, if_pos htn, hy]
      have holder : (items.take tail).drop b = (history.take tail).drop b := by
        rw [hitems, List.take_take, Nat.min_eq_left htn.le]
      set summary := summaryText ((c.map (·.summary)).getD "") ((items.take tail).drop b).length
        call.outcome with hsummary
      have hstep : step fingerprint size tailChars minGainChars history c call
          = (⟨render items (some (tail, summary)), (items.take tail).drop b⟩,
            some ⟨fingerprint y, summary⟩) := by
        simp only [step, ConversationCompactor.view, ← hitems, hfirst, hkept, hover, if_true,
          hcuts, hyitems, Option.map_some]
        rfl
      have hcutBoundary : anchorIndex fingerprint history (fingerprint y) = some tail
          ∧ boundary fingerprint history (some ⟨fingerprint y, summary⟩) = tail :=
        boundary_cut hy fun j x hj hx => hfresh j x y hj hx hy
      obtain ⟨hanchor, hboundary⟩ := hcutBoundary
      rw [hstep]
      refine ⟨⟨(hlast _).le.trans hlength, fun compaction hc => ?_, ?_, fun n => ?_⟩, ?_, ?_, ?_, ?_⟩
      · cases hc
        rw [hboundary, hlast]
        exact ⟨hanchor, htn⟩
      · rw [htranscripts, hboundary, holder]
        have htake : history.take b = (history.take tail).take b := by
          rw [List.take_take, Nat.min_eq_left hbt.le]
        rw [htake, List.take_append_drop]
      · rw [hboundary]
        refine ⟨fun i j hanswers hj hjn => ?_, hkeeps.reasoning⟩
        rcases Nat.lt_or_ge j call.length with hlt | hge
        · exact hkeeps.call i j hanswers hj hlt
        · exact hwaits i j hanswers hge
      · rw [hboundary]
        rfl
      · rw [hboundary, holder]
      · rw [hboundary]
        exact hbt.le
      · rw [hboundary]
        exact htn.le

theorem stands (hwf : WellFormed history) {log : Log} {c : Option (Compaction φ)}
    (h : Run (step fingerprint size tailChars minGainChars history)
      (CutOk fingerprint size tailChars minGainChars history) none log c) :
    Stands fingerprint history log c :=
  h.invariant
    ⟨Nat.zero_le _, fun _ hc => (nomatch hc), rfl, fun _ => ⟨fun _ _ _ _ _ => Nat.zero_le _,
      fun hpos => absurd hpos (Nat.lt_irrefl 0)⟩⟩
    fun _ _ _ _ hok hstands => (step_stands hwf hstands hok).1

/-- Each output from the boundary on has its call there too, and the reasoning
right before that call. -/
def KeepsWhole (history : List Item) (b length : Nat) : Prop :=
  ∀ (j : Nat) y, b ≤ j → j < length → history[j]? = some y →
    isType y "function_call_output" →
    ∃ (i : Nat) (x : Item), b ≤ i ∧ i < j ∧ history[i]? = some x ∧ isType x "function_call"
      ∧ field x "call_id" = field y "call_id"
      ∧ ∀ m < i, (∀ l, m ≤ l → l < i → ∃ z, history[l]? = some z ∧ isType z "reasoning") → b ≤ m

theorem Keeps.whole (hwf : WellFormed history) {b n : Nat} (h : Keeps history b n) :
    KeepsWhole history b n := by
  intro j y hbj hjn hy hout
  obtain ⟨i, x, hij, hx, hcall, hid⟩ := hwf.answers j y hy hout
  have hbi := h.call i j ⟨x, y, hx, hy, hcall, hout, hid⟩ hbj hjn
  refine ⟨i, x, hbi, hij, hx, hcall, hid, fun m hm hreasoning => ?_⟩
  by_contra hlt
  obtain ⟨z, hz, hzr⟩ := hreasoning (b - 1) (by omega) (by omega)
  exact h.reasoning (by omega) z hz hzr

/-- Compaction loses and repeats nothing: in every run whose cuts are good, a
call shows the history from its boundary on behind the player's messages and
the summary, the boundary only moves forward, what is summarised is what it
moves over, and what is shown is whole. -/
theorem view_faithful (hwf : WellFormed history) {log : Log} {c : Option (Compaction φ)}
    (h : Run (step fingerprint size tailChars minGainChars history)
      (CutOk fingerprint size tailChars minGainChars history) none log c)
    {call : ViewCall}
    (hok : CutOk fingerprint size tailChars minGainChars history log c call)
    {v : Viewed} {c' : Option (Compaction φ)}
    (hstep : step fingerprint size tailChars minGainChars history c call = (v, c')) :
    transcripts log = history.take (boundary fingerprint history c)
      ∧ Shows history call v (boundary fingerprint history c)
          (boundary fingerprint history c') c'
      ∧ KeepsWhole history (boundary fingerprint history c') call.length := by
  have hstands := stands hwf h
  obtain ⟨hnext, hshows⟩ := step_stands hwf hstands hok
  rw [hstep] at hnext hshows
  exact ⟨hstands.transcripts, hshows, (hnext.keeps call.length).whole hwf⟩

end

/-! ## A boundary that is found too early -/

/-- Something the model said. -/
def said (text : String) : Item := [("role", .str "assistant"), ("content", .str text)]

/-- The last item repeats the first. The first view keeps the last item alone,
and the next one, of the same history, shows all of it again. -/
theorem repeated_reshown :
    ((exec (step id (fun _ => 10) 10 0 [said "Still digging.", said "It is night.",
          said "Still digging."]) none
        [⟨3, true, some "Digging at night."⟩, ⟨3, false, none⟩]).1.map (·.2.view))
      = [[summaryItem "Digging at night.", said "Still digging."],
         [summaryItem "Digging at night.", said "Still digging.", said "It is night.",
           said "Still digging."]] := by
  decide +kernel

/-- A call and its output, with a view between them. -/
def call (id : String) : Item := [("type", .str "function_call"), ("call_id", .str id)]
def output (id : String) : Item := [("type", .str "function_call_output"), ("call_id", .str id)]

theorem waiting_split :
    ((exec (step id (fun _ => 10) 10 0 [call "c1", said "Meanwhile.", output "c1"]) none
        [⟨2, true, some "Notes."⟩, ⟨3, false, none⟩]).1.map (·.2.view))
      = [[summaryItem "Notes.", said "Meanwhile."],
         [summaryItem "Notes.", said "Meanwhile.", output "c1"]] := by
  decide +kernel

/-- A call that is cut off with its output. -/
def answered : List Item := [said "Digging.", call "c1", output "c1"]

theorem answered_call {i : Nat} {x : Item} (hx : answered[i]? = some x)
    (hcall : isType x "function_call") : i = 1 ∧ x = call "c1" := by
  match i with
  | 0 => cases hx; exact absurd hcall (by decide)
  | 1 => cases hx; exact ⟨rfl, rfl⟩
  | 2 => cases hx; exact absurd hcall (by decide)
  | i + 3 => cases hx

theorem answered_output {j : Nat} {y : Item} (hy : answered[j]? = some y)
    (hout : isType y "function_call_output") : j = 2 ∧ y = output "c1" := by
  match j with
  | 0 => cases hy; exact absurd hout (by decide)
  | 1 => cases hy; exact absurd hout (by decide)
  | 2 => cases hy; exact ⟨rfl, rfl⟩
  | j + 3 => cases hy

theorem wellFormed_answered : WellFormed answered where
  unique := fun _ _ _ _ hx hy hcall hcall' _ =>
    (answered_call hx hcall).1.trans (answered_call hy hcall').1.symm
  answers := fun _ _ hy hout => by
    obtain ⟨rfl, rfl⟩ := answered_output hy hout
    exact ⟨1, call "c1", by decide, rfl, by decide, by decide⟩

theorem view_faithful_answered : ∃ v c',
    step id (fun _ => 10) 10 0 answered none ⟨3, true, some "Notes."⟩ = (v, c')
      ∧ v.view = [summaryItem "Notes.", call "c1", output "c1"]
      ∧ v.transcript = [said "Digging."]
      ∧ Shows answered ⟨3, true, some "Notes."⟩ v (boundary id answered none)
          (boundary id answered c') c'
      ∧ KeepsWhole answered (boundary id answered c') 3 := by
  have hcut : cut (fun _ => 10) 10 0 (answered.take 3) (boundary id answered none) = some 1 := by
    decide +kernel
  have hok : CutOk id (fun _ => 10) 10 0 answered [] none ⟨3, true, some "Notes."⟩ := by
    refine ⟨by decide, by decide, fun tail _ htail => ?_⟩
    rw [hcut, Option.some.injEq] at htail
    subst htail
    constructor
    · intro j x y hj hx hy
      obtain rfl : j = 0 := by omega
      cases hx
      cases hy
      decide
    · rintro i j ⟨x, y, -, hy, -, hout, -⟩ hj
      have hlast := (answered_output hy hout).1
      have hj : 3 ≤ j := hj
      omega
  obtain ⟨-, hshows, hkeeps⟩ := view_faithful wellFormed_answered .start hok rfl
  exact ⟨_, _, rfl, by decide +kernel, by decide +kernel, hshows, hkeeps⟩

end ConversationCompactor

end MineBot
