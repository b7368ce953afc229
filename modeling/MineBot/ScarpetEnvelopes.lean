import Mathlib
import MineBot.Json
import MineBot.Text

/-!
# Envelopes from the Scarpet app

`_parse_envelope` reads the answer to a `script` command: a JSON object after
an optional `=`. Carpet may put the time a call took in parentheses around it,
and further answers behind it. All times are blanked in the text before any of
it is decoded.

The texts `_extra_assignment_envelopes` takes are those of the grammar
`Assignments` (`extraAssignmentEnvelopes_iff`). An object in whose text no time
stands is read as it is; a time inside one of its strings is blanked as well.
-/

namespace MineBot

namespace ScarpetEnvelope

/-- What the reader takes from Python. -/
structure Python where
  /-- `\d` -/
  isDecimal : Char → Bool
  /-- `raw_decode`: the JSON value a text starts with, and where it ends -/
  rawDecode : List Char → Option (Json × Nat)
  repr : List Char → String

inductive ResponseError where
  /-- `TruncatedPayloadError` -/
  | truncated (message : String)
  /-- `EnvelopeError` -/
  | envelope (message : String)
deriving DecidableEq

def rconApplicationBudget : Nat := 4096

/-! ## Timing tokens -/

/-- How far `\(\d+(?:\.\d+)?[a-zµ]+\)` is matched. -/
inductive Reading where
  | opened
  | whole
  | point
  | fraction
  | unit
deriving DecidableEq

/-- `[a-zµ]` -/
def isUnit (c : Char) : Bool := ('a' ≤ c && c ≤ 'z') || c = 'µ'

section

variable (py : Python)

def Reading.next : Reading → Char → Option Reading
  | .opened, c => if py.isDecimal c then some .whole else none
  | .whole, c =>
      if py.isDecimal c then some .whole
      else if c = '.' then some .point
      else if isUnit c then some .unit
      else none
  | .point, c => if py.isDecimal c then some .fraction else none
  | .fraction, c =>
      if py.isDecimal c then some .fraction else if isUnit c then some .unit else none
  | .unit, c => if isUnit c then some .unit else none

/-- The length of the rest of a token. -/
def tokenEnd : Reading → List Char → Option Nat
  | _, [] => none
  | reading, c :: cs =>
      if reading = .unit ∧ c = ')' then some 1
      else (reading.next py c).bind fun reading => (tokenEnd reading cs).map (· + 1)

/-- The length of the timing token a text starts with. -/
def tokenLength : List Char → Option Nat
  | [] => none
  | c :: cs => if c = '(' then (tokenEnd py .opened cs).map (· + 1) else none

/-- The text with a blank for each token, behind some characters of a token. -/
def blankTokens : Nat → List Char → List Char
  | _, [] => []
  | skip + 1, _ :: cs => blankTokens skip cs
  | 0, c :: cs =>
      match tokenLength py (c :: cs) with
      | some n => ' ' :: blankTokens (n - 1) cs
      | none => c :: blankTokens 0 cs

/-- `_SCARPET_TIMING_TOKEN_RE.sub(" ", text)` -/
def withoutTokens (text : List Char) : List Char := blankTokens py 0 text

/-! ## Reading an envelope -/

/-- `text.strip()` -/
def strip (text : List Char) : List Char := (text.rdropWhile isPySpace).dropWhile isPySpace

/-- `_SCRIPT_PREFIX_RE.sub("", text)` -/
def dropPrefix (text : List Char) : List Char :=
  match text.dropWhile isPySpace with
  | [] => text
  | c :: rest => if c = '=' then rest.dropWhile isPySpace else text

/-- `type(value).__name__` -/
def typeName : Json → String
  | .null => "NoneType"
  | .bool _ => "bool"
  | .int _ => "int"
  | .float _ => "float"
  | .str _ => "str"
  | .arr _ => "list"
  | .obj _ => "dict"

/-- The loop of `_extra_assignment_envelopes`. -/
def extraAssignments : Nat → List Char → Option (List Json)
  | 0, _ => none
  | fuel + 1, remainder =>
      if remainder = [] then some []
      else
        let rest := strip (dropPrefix remainder)
        if rest = remainder then none
        else match py.rawDecode rest with
          | some (.obj fields, n) =>
              (extraAssignments fuel (strip (withoutTokens py (rest.drop n)))).map (.obj fields :: ·)
          | _ => none

/-- `_extra_assignment_envelopes`: each round takes an `=` from the text. -/
def extraAssignmentEnvelopes (text : List Char) : Option (List Json) :=
  let remainder := strip (withoutTokens py text)
  extraAssignments py (remainder.length + 1) remainder

/-- The text that is decoded. -/
def cleaned (raw : List Char) : List Char := strip (withoutTokens py (dropPrefix (strip raw)))

/-- The value decoded at the start, else from the first brace, and what follows it. -/
def firstValue (text : List Char) : Option (Json × List Char) :=
  match py.rawDecode text with
  | some (payload, n) => some (payload, text.drop n)
  | none =>
      match text.dropWhile (· ≠ '{') with
      | [] => none
      | object => (py.rawDecode object).map fun found => (found.1, object.drop found.2)

def hasType (expected : String) (fields : JsonObject) : Bool :=
  fields.get? "type" = some (.str expected)

def isEnvelope (expected : String) : Json → Bool
  | .obj fields => hasType expected fields
  | _ => false

/-- The payload that is taken: the first of the expected type, where more follow. -/
def selectPayload (payload : Json) (trailing : List Char) (expectedType : Option String) :
    Except ResponseError Json :=
  if trailing = [] then .ok payload
  else match extraAssignmentEnvelopes py trailing with
    | none =>
        .error (.envelope s!"unexpected content after JSON envelope: {py.repr (trailing.take 80)}")
    | some extra =>
        match expectedType with
        | none => .ok payload
        | some expected => .ok (((payload :: extra).find? (isEnvelope expected)).getD payload)

def requireObject : Json → Except ResponseError JsonObject
  | .obj fields => .ok fields
  | payload => .error (.envelope s!"response envelope must be object, got {typeName payload}")

/-- `_parse_envelope` -/
def parseEnvelope (raw : List Char) (expectedType : Option String) :
    Except ResponseError JsonObject :=
  if rconApplicationBudget ≤ raw.length then
    .error (.truncated "RCON logical response reached the 4096-char application budget")
  else match firstValue py (cleaned py raw) with
    | none => .error (.envelope s!"response is not JSON envelope: {py.repr (raw.take 120)}")
    | some (payload, after) =>
        (selectPayload py payload (strip after) expectedType).bind requireObject

/-! ## The texts of a response -/

def Spaces (text : List Char) : Prop := ∀ c ∈ text, isPySpace c = true

/-- A JSON text of the object. -/
def IsText (o : JsonObject) (text : List Char) : Prop :=
  py.rawDecode text = some (.obj o, text.length)

def IsToken (text : List Char) : Prop := tokenLength py text = some text.length

instance decidableIsText (o : JsonObject) (text : List Char) : Decidable (IsText py o text) :=
  inferInstanceAs (Decidable (_ = _))

instance decidableIsToken (text : List Char) : Decidable (IsToken py text) :=
  inferInstanceAs (Decidable (_ = _))

/-- No timing token stands in the text. -/
def TokenFree (text : List Char) : Prop := ∀ rest, rest <:+ text → tokenLength py rest = none

/-- White space and timing tokens. -/
inductive Gap : List Char → Prop
  | nil : Gap []
  | space {c : Char} {text : List Char} (hc : isPySpace c = true) (h : Gap text) : Gap (c :: text)
  | token {token text : List Char} (ht : IsToken py token) (h : Gap text) : Gap (token ++ text)

/-- Objects behind an `=` each, with timing tokens around them. -/
inductive Envelopes : List Char → List JsonObject → Prop
  | nil {gap : List Char} (h : Gap py gap) : Envelopes gap []
  | cons {gap gap' text rest : List Char} {o : JsonObject} {os : List JsonObject}
      (hgap : Gap py gap) (hgap' : Gap py gap') (htext : IsText py o text)
      (hfree : TokenFree py text) (hrest : Envelopes rest os) :
      Envelopes (gap ++ '=' :: (gap' ++ (text ++ rest))) (o :: os)

/-- A response with this object, and others behind it. -/
inductive Response : List Char → JsonObject → List JsonObject → Prop
  | plain {ws text rest : List Char} {o : JsonObject} {os : List JsonObject} (hws : Spaces ws)
      (htext : IsText py o text) (hfree : TokenFree py text) (hrest : Envelopes py rest os) :
      Response (ws ++ (text ++ rest)) o os
  | assigned {ws ws' text rest : List Char} {o : JsonObject} {os : List JsonObject}
      (hws : Spaces ws) (hws' : Spaces ws') (htext : IsText py o text)
      (hfree : TokenFree py text) (hrest : Envelopes py rest os) :
      Response (ws ++ ('=' :: (ws' ++ (text ++ rest)))) o os

/-- Objects behind an `=` each, where the tokens are blanked. -/
inductive Assignments : List Char → List JsonObject → Prop
  | nil {ws : List Char} (h : Spaces ws) : Assignments ws []
  | cons {ws ws' text rest : List Char} {o : JsonObject} {os : List JsonObject}
      (hws : Spaces ws) (hws' : Spaces ws') (htext : IsText py o text)
      (hrest : Assignments rest os) :
      Assignments (ws ++ '=' :: (ws' ++ (text ++ rest))) (o :: os)

/-- The first value of a text, at its start or at its first brace, and what
follows it. -/
inductive FirstValue (text : List Char) : Json → List Char → Prop
  | start {value : Json} {n : Nat} (h : py.rawDecode text = some (value, n)) :
      FirstValue text value (text.drop n)
  | brace {junk object : List Char} {value : Json} {n : Nat} (h : py.rawDecode text = none)
      (htext : text = junk ++ '{' :: object) (hjunk : '{' ∉ junk)
      (hobject : py.rawDecode ('{' :: object) = some (value, n)) :
      FirstValue text value (('{' :: object).drop n)

/-- Of digits, no one is white space, a parenthesis or a brace; an object is
read up to its closing brace, whatever follows. -/
structure Python.Lawful : Prop where
  decimal : ∀ c, py.isDecimal c = true → isPySpace c = false ∧ c ≠ '(' ∧ c ≠ '}'
  inside : ∀ {text o n}, py.rawDecode text = some (.obj o, n) → n ≤ text.length
  braces : ∀ {text o n}, py.rawDecode text = some (.obj o, n) →
    ∃ fields, text.take n = '{' :: (fields ++ ['}'])
  stops : ∀ {text o n}, py.rawDecode text = some (.obj o, n) →
    ∀ rest, py.rawDecode (text.take n ++ rest) = some (.obj o, n)

end

/-! ## White space -/

section

variable {text ws ws' : List Char} {c : Char}

theorem rdropWhile_append_cons (hc : isPySpace c = false) (a b : List Char) :
    (a ++ c :: b).rdropWhile isPySpace = a ++ c :: b.rdropWhile isPySpace := by
  induction b using List.reverseRecOn with
  | nil => rw [List.rdropWhile_concat_neg _ _ _ (by simp [hc]), List.rdropWhile_nil]
  | append_singleton b x ih =>
      rw [← List.cons_append, ← List.append_assoc]
      by_cases hx : isPySpace x = true
      · rw [List.rdropWhile_concat_pos _ _ _ hx, List.rdropWhile_concat_pos _ _ _ hx, ih]
      · rw [List.rdropWhile_concat_neg _ _ _ hx, List.rdropWhile_concat_neg _ _ _ hx,
          List.append_assoc, List.cons_append]

theorem rdropWhile_append_spaces (hws : Spaces ws) (text : List Char) :
    (text ++ ws).rdropWhile isPySpace = text.rdropWhile isPySpace := by
  rw [List.rdropWhile, List.reverse_append,
    List.dropWhile_append_of_pos fun a ha => hws a (List.mem_reverse.mp ha)]
  rfl

theorem strip_rdropWhile (text : List Char) : strip (text.rdropWhile isPySpace) = strip text := by
  rw [strip, strip, List.rdropWhile_idempotent]

theorem strip_spaces (hws : Spaces ws) : strip ws = [] := by
  rw [strip, List.rdropWhile_eq_nil_iff.mpr hws, List.dropWhile_nil]

theorem strip_spaces_cons (hws : Spaces ws) (hc : isPySpace c = false) (text : List Char) :
    strip (ws ++ c :: text) = c :: text.rdropWhile isPySpace := by
  rw [strip, rdropWhile_append_cons hc, List.dropWhile_append_of_pos hws,
    List.dropWhile_cons_of_neg (by simp [hc])]

theorem exists_strip (text : List Char) :
    ∃ ws ws', Spaces ws ∧ Spaces ws' ∧ text = ws ++ (strip text ++ ws') := by
  refine ⟨(text.rdropWhile isPySpace).takeWhile isPySpace, text.rtakeWhile isPySpace,
    fun c hc => List.mem_takeWhile_imp hc, fun c hc => List.mem_rtakeWhile_imp hc, ?_⟩
  rw [strip, ← List.append_assoc, List.takeWhile_append_dropWhile,
    List.rdropWhile_append_rtakeWhile]

/-- A stripped text is empty, or no white space is at its ends. -/
theorem strip_cases (text : List Char) : strip text = [] ∨
    ∃ c rest, strip text = c :: rest ∧ isPySpace c = false ∧ rest.rdropWhile isPySpace = rest := by
  cases h : strip text with
  | nil => exact .inl rfl
  | cons c rest =>
      have hc : isPySpace c = false := by
        have hne : (text.rdropWhile isPySpace).dropWhile isPySpace ≠ [] := by
          rw [← strip, h]
          exact List.cons_ne_nil c rest
        have hhead := List.head_dropWhile_not isPySpace hne
        have hstrip : (text.rdropWhile isPySpace).dropWhile isPySpace = c :: rest := h
        simpa only [hstrip, List.head_cons] using hhead
      refine .inr ⟨c, rest, rfl, hc, ?_⟩
      have hsplit : text.rdropWhile isPySpace =
          (text.rdropWhile isPySpace).takeWhile isPySpace ++ c :: rest := by
        rw [← h, strip, List.takeWhile_append_dropWhile]
      have hagain := List.rdropWhile_idempotent isPySpace text
      rw [hsplit, rdropWhile_append_cons hc] at hagain
      exact (List.cons.inj (List.append_cancel_left hagain)).2

theorem strip_strip (text : List Char) : strip (strip text) = strip text := by
  rcases strip_cases text with h | ⟨c, rest, h, hc, hrest⟩
  · rw [h, strip_spaces (by simp [Spaces])]
  · rw [h, ← List.nil_append (c :: rest), strip_spaces_cons (by simp [Spaces]) hc, hrest,
      List.nil_append]

theorem dropPrefix_assigned (hws : Spaces ws) (hc : isPySpace c = false) (text : List Char) :
    dropPrefix ('=' :: (ws ++ c :: text)) = c :: text := by
  rw [dropPrefix, List.dropWhile_cons_of_neg (by decide)]
  simp only [if_true]
  rw [List.dropWhile_append_of_pos hws, List.dropWhile_cons_of_neg (by simp [hc])]

theorem dropPrefix_plain (hc : isPySpace c = false) (hne : c ≠ '=') (text : List Char) :
    dropPrefix (c :: text) = c :: text := by
  rw [dropPrefix, List.dropWhile_cons_of_neg (by simp [hc])]
  simp only [if_neg hne]

end

/-! ## Blanking the tokens -/

section

variable {py : Python} {c : Char} {cs text : List Char} {n : Nat}

theorem tokenEnd_append {reading : Reading} (h : tokenEnd py reading cs = some n)
    (rest : List Char) : tokenEnd py reading (cs ++ rest) = some n := by
  induction cs generalizing reading n with
  | nil => cases h
  | cons c cs ih =>
      rw [tokenEnd] at h
      rw [List.cons_append, tokenEnd]
      split at h
      · next hclose => rwa [if_pos hclose]
      · next hopen =>
          obtain ⟨next, hnext, h⟩ := Option.bind_eq_some_iff.mp h
          obtain ⟨m, hm, rfl⟩ := Option.map_eq_some_iff.mp h
          rw [if_neg hopen, hnext, Option.bind_some, ih hm, Option.map_some]

theorem tokenLength_append (h : tokenLength py cs = some n) (rest : List Char) :
    tokenLength py (cs ++ rest) = some n := by
  cases cs with
  | nil => cases h
  | cons c cs =>
      rw [tokenLength] at h
      rw [List.cons_append, tokenLength]
      split at h
      · next hopen =>
          obtain ⟨m, hm, rfl⟩ := Option.map_eq_some_iff.mp h
          rw [if_pos hopen, tokenEnd_append hm, Option.map_some]
      · cases h

theorem tokenEnd_le {reading : Reading} (h : tokenEnd py reading cs = some n) : n ≤ cs.length := by
  induction cs generalizing reading n with
  | nil => cases h
  | cons c cs ih =>
      rw [tokenEnd] at h
      split at h
      · obtain rfl := Option.some.inj h
        simp
      · obtain ⟨next, -, h⟩ := Option.bind_eq_some_iff.mp h
        obtain ⟨m, hm, rfl⟩ := Option.map_eq_some_iff.mp h
        simpa using ih hm

theorem tokenLength_le (h : tokenLength py (c :: cs) = some n) : n - 1 ≤ cs.length := by
  rw [tokenLength] at h
  split at h
  · obtain ⟨m, hm, rfl⟩ := Option.map_eq_some_iff.mp h
    simpa using tokenEnd_le hm
  · cases h

/-- No token goes on with this character. -/
structure Stops (py : Python) (c : Char) : Prop where
  closes : c ≠ ')'
  next : ∀ reading : Reading, reading.next py c = none

theorem Stops.tokenEnd_eq (h : Stops py c) (reading : Reading) (rest : List Char) :
    tokenEnd py reading (c :: rest) = none := by
  rw [tokenEnd, if_neg fun hclose => h.closes hclose.2, h.next, Option.bind_none]

theorem tokenEnd_stops (h : Stops py c) (reading : Reading) (cs rest : List Char) :
    tokenEnd py reading (cs ++ c :: rest) = tokenEnd py reading cs := by
  induction cs generalizing reading with
  | nil => exact h.tokenEnd_eq reading rest
  | cons x cs ih => simp only [List.cons_append, tokenEnd, ih]

theorem tokenLength_stops (h : Stops py c) (hopen : c ≠ '(') (cs rest : List Char) :
    tokenLength py (cs ++ c :: rest) = tokenLength py cs := by
  cases cs with
  | nil => simp only [List.nil_append, tokenLength, if_neg hopen]
  | cons x cs => simp only [List.cons_append, tokenLength, tokenEnd_stops h]

/-- No token reaches over the character. -/
theorem blankTokens_stops (h : Stops py c) (hopen : c ≠ '(') (cs rest : List Char) {skip : Nat}
    (hskip : skip ≤ cs.length) :
    blankTokens py skip (cs ++ c :: rest) = blankTokens py skip cs ++ c :: withoutTokens py rest := by
  induction cs generalizing skip with
  | nil =>
      obtain rfl : skip = 0 := by simpa using hskip
      simp only [List.nil_append, blankTokens, tokenLength, if_neg hopen, withoutTokens]
  | cons x cs ih =>
      cases skip with
      | succ skip => rw [List.cons_append, blankTokens, blankTokens, ih (by simpa using hskip)]
      | zero =>
          rw [List.cons_append, blankTokens, blankTokens, ← List.cons_append,
            tokenLength_stops h hopen]
          cases hlength : tokenLength py (x :: cs) with
          | none => simp only [ih (Nat.zero_le _), List.cons_append]
          | some n => simp only [ih (tokenLength_le hlength), List.cons_append]

theorem tokenFree_iff : TokenFree py text ↔ ∀ rest ∈ text.tails, tokenLength py rest = none := by
  simp only [TokenFree, List.mem_tails]

theorem TokenFree.withoutTokens_eq (h : TokenFree py text) : withoutTokens py text = text := by
  induction text with
  | nil => rfl
  | cons c text ih =>
      rw [withoutTokens, blankTokens, h _ (List.suffix_refl _)]
      exact congrArg (c :: ·) (ih fun rest hrest => h rest (hrest.trans (List.suffix_cons ..)))

theorem TokenFree.within {a b : List Char} (h : TokenFree py (a ++ (text ++ b))) :
    TokenFree py text := by
  rintro rest ⟨before, rfl⟩
  cases hn : tokenLength py rest with
  | none => rfl
  | some n =>
      have hwhole := h (rest ++ b) ⟨a ++ before, by simp⟩
      rw [tokenLength_append hn] at hwhole
      cases hwhole

theorem TokenFree.of_suffix {a : List Char} (h : TokenFree py (a ++ text)) : TokenFree py text :=
  fun rest hrest => h rest (hrest.trans (List.suffix_append a text))

theorem TokenFree.rdropWhile (h : TokenFree py text) :
    TokenFree py (text.rdropWhile isPySpace) := by
  have hsplit : text.rdropWhile isPySpace ++ text.rtakeWhile isPySpace = text :=
    List.rdropWhile_append_rtakeWhile
  rw [← hsplit, ← List.nil_append (_ ++ _)] at h
  exact h.within

theorem TokenFree.strip (h : TokenFree py text) : TokenFree py (strip text) := by
  obtain ⟨ws, ws', -, -, hsplit⟩ := exists_strip text
  exact (hsplit ▸ h).within

theorem tokenFree_spaces (h : Spaces text) : TokenFree py text := by
  intro rest hrest
  cases rest with
  | nil => rfl
  | cons c rest =>
      rw [tokenLength, if_neg]
      rintro rfl
      exact absurd (h _ (hrest.subset List.mem_cons_self)) (by decide)

theorem isPySpace_of_isUnit (h : isUnit c = true) : isPySpace c = false := by
  simp only [isUnit, Bool.or_eq_true, Bool.and_eq_true, decide_eq_true_eq] at h
  rcases h with ⟨hlow, hhigh⟩ | rfl
  · have hlow : 97 ≤ c.toNat := hlow
    have hhigh : c.toNat ≤ 122 := hhigh
    simp only [isPySpace, Bool.or_eq_false_iff, Bool.and_eq_false_iff, decide_eq_false_iff_not,
      beq_eq_false_iff_ne]
    omega
  · decide

theorem Python.Lawful.stops_of (hpy : py.Lawful) (h : isPySpace c = true ∨ c = '(' ∨ c = '}') :
    Stops py c := by
  have hdecimal : py.isDecimal c = false := by
    by_contra hdecimal
    obtain ⟨hspace, hopen, hbrace⟩ := hpy.decimal c (by simpa using hdecimal)
    rcases h with h | h | h
    · exact absurd (h.symm.trans hspace) (by decide)
    · exact hopen h
    · exact hbrace h
  have hunit : isUnit c = false := by
    rcases h with h | rfl | rfl
    · by_contra hunit
      exact absurd (h.symm.trans (isPySpace_of_isUnit (by simpa using hunit))) (by decide)
    · decide
    · decide
  have hpoint : c ≠ '.' := by
    rintro rfl
    exact absurd h (by decide)
  refine ⟨?_, fun reading => ?_⟩
  · rintro rfl
    exact absurd h (by decide)
  · cases reading <;> simp [Reading.next, hdecimal, hunit, hpoint]

/-- Blanking makes no token. -/
theorem tokenEnd_blankTokens (hpy : py.Lawful) (reading : Reading) (cs : List Char) :
    tokenEnd py reading (blankTokens py 0 cs) = tokenEnd py reading cs := by
  induction cs generalizing reading with
  | nil => rfl
  | cons c cs ih =>
      rw [blankTokens]
      cases hlength : tokenLength py (c :: cs) with
      | none => simp only [tokenEnd, ih]
      | some n =>
          have hopen : c = '(' := by
            by_contra hne
            rw [tokenLength, if_neg hne] at hlength
            cases hlength
          simp only [(hpy.stops_of (.inl (by decide : isPySpace ' ' = true))).tokenEnd_eq,
            (hpy.stops_of (.inr (.inl hopen))).tokenEnd_eq]

theorem tokenFree_blankTokens (hpy : py.Lawful) (skip : Nat) (text : List Char) :
    TokenFree py (blankTokens py skip text) := by
  induction text generalizing skip with
  | nil =>
      intro rest hrest
      cases skip <;> rw [List.suffix_nil.mp hrest, tokenLength]
  | cons c text ih =>
      cases skip with
      | succ skip => exact ih skip
      | zero =>
          intro rest hrest
          rw [blankTokens] at hrest
          cases hlength : tokenLength py (c :: text) with
          | none =>
              simp only [hlength] at hrest
              rcases List.suffix_cons_iff.mp hrest with rfl | hrest
              · rw [tokenLength] at hlength ⊢
                rwa [tokenEnd_blankTokens hpy]
              · exact ih 0 rest hrest
          | some n =>
              simp only [hlength] at hrest
              rcases List.suffix_cons_iff.mp hrest with rfl | hrest
              · rw [tokenLength, if_neg (by decide)]
              · exact ih _ rest hrest

/-! ## Texts of objects -/

variable {o : JsonObject} {os : List JsonObject} {rest ws : List Char}

theorem IsText.decode (hpy : py.Lawful) (ht : IsText py o text) (rest : List Char) :
    py.rawDecode (text ++ rest) = some (.obj o, text.length) := by
  have hstops := hpy.stops ht rest
  rwa [List.take_length] at hstops

theorem IsText.exists_braces (hpy : py.Lawful) (ht : IsText py o text) :
    ∃ fields, text = '{' :: (fields ++ ['}']) := by
  obtain ⟨fields, hfields⟩ := hpy.braces ht
  exact ⟨fields, by rwa [List.take_length] at hfields⟩

theorem isText_take (hpy : py.Lawful) (h : py.rawDecode text = some (.obj o, n)) :
    IsText py o (text.take n) := by
  have hstops := hpy.stops h []
  rwa [IsText, List.length_take_of_le (hpy.inside h), ← List.append_nil (text.take n)]

/-- White space behind an object is not part of it. -/
theorem rdropWhile_text (hpy : py.Lawful) (ht : IsText py o text) (before rest : List Char) :
    (before ++ (text ++ rest)).rdropWhile isPySpace =
      before ++ (text ++ rest.rdropWhile isPySpace) := by
  obtain ⟨fields, rfl⟩ := ht.exists_braces hpy
  have hlast := rdropWhile_append_cons (by decide : isPySpace '}' = false)
    (before ++ '{' :: fields) rest
  simpa using hlast

theorem withoutTokens_text (hpy : py.Lawful) (ht : IsText py o text) (hfree : TokenFree py text)
    (rest : List Char) : withoutTokens py (text ++ rest) = text ++ withoutTokens py rest := by
  obtain ⟨fields, rfl⟩ := ht.exists_braces hpy
  have hblank : ∀ rest, withoutTokens py ('{' :: (fields ++ ['}']) ++ rest) =
      withoutTokens py ('{' :: fields) ++ '}' :: withoutTokens py rest := by
    intro rest
    have hstops := blankTokens_stops (hpy.stops_of (.inr (.inr (rfl : '}' = '}')))) (by decide)
      ('{' :: fields) rest (Nat.zero_le _)
    simpa [withoutTokens] using hstops
  have hself := hblank []
  rw [List.append_nil, hfree.withoutTokens_eq] at hself
  have hfields : '{' :: fields = withoutTokens py ('{' :: fields) :=
    List.append_cancel_right (show ('{' :: fields) ++ ['}'] = _ ++ ['}'] from hself)
  rw [hblank, ← hfields]
  simp

theorem rdropWhile_withoutTokens (hpy : py.Lawful) (rest : List Char) :
    (withoutTokens py (rest.rdropWhile isPySpace)).rdropWhile isPySpace =
      (withoutTokens py rest).rdropWhile isPySpace := by
  have hspaces : Spaces (rest.rtakeWhile isPySpace) := fun c hc => List.mem_rtakeWhile_imp hc
  have hsplit : rest.rdropWhile isPySpace ++ rest.rtakeWhile isPySpace = rest :=
    List.rdropWhile_append_rtakeWhile
  cases hws : rest.rtakeWhile isPySpace with
  | nil =>
      rw [hws, List.append_nil] at hsplit
      rw [hsplit]
  | cons c ws =>
      rw [hws] at hspaces hsplit
      have hc := hspaces c List.mem_cons_self
      have hne : c ≠ '(' := by
        rintro rfl
        exact absurd hc (by decide)
      have htail : Spaces ws := fun d hd => hspaces d (List.mem_cons_of_mem c hd)
      conv_rhs => rw [← hsplit, withoutTokens,
        blankTokens_stops (hpy.stops_of (.inl hc)) hne _ ws (Nat.zero_le _),
        (tokenFree_spaces htail).withoutTokens_eq, rdropWhile_append_spaces hspaces]
      rfl

/-- Stripping a text that starts with an object. -/
theorem strip_text (hpy : py.Lawful) (ht : IsText py o text) (hws : Spaces ws)
    (rest : List Char) :
    strip (ws ++ (text ++ rest)) = text ++ rest.rdropWhile isPySpace := by
  rw [strip, rdropWhile_text hpy ht]
  obtain ⟨fields, rfl⟩ := ht.exists_braces hpy
  rw [List.dropWhile_append_of_pos hws]
  rfl

theorem dropPrefix_text (hpy : py.Lawful) (ht : IsText py o text) (rest : List Char) :
    dropPrefix (text ++ rest) = text ++ rest := by
  obtain ⟨fields, rfl⟩ := ht.exists_braces hpy
  exact dropPrefix_plain (by decide) (by decide) _

theorem dropPrefix_assigned_text (hpy : py.Lawful) (ht : IsText py o text) (hws : Spaces ws)
    (rest : List Char) : dropPrefix ('=' :: (ws ++ (text ++ rest))) = text ++ rest := by
  obtain ⟨fields, rfl⟩ := ht.exists_braces hpy
  exact dropPrefix_assigned hws (by decide) _

/-! ## The grammar -/

theorem IsToken.withoutTokens_append {token : List Char} (ht : IsToken py token)
    (rest : List Char) : withoutTokens py (token ++ rest) = ' ' :: withoutTokens py rest := by
  have hskip : ∀ cs : List Char, blankTokens py cs.length (cs ++ rest) = blankTokens py 0 rest := by
    intro cs
    induction cs with
    | nil => rfl
    | cons c cs ih => exact ih
  cases token with
  | nil => cases ht
  | cons c token =>
      have hlength := tokenLength_append ht rest
      rw [List.cons_append] at hlength
      rw [List.cons_append, withoutTokens, blankTokens, hlength]
      exact congrArg (' ' :: ·) (hskip token)

theorem Gap.blank {gap : List Char} (h : Gap py gap) : ∃ ws, Spaces ws ∧
    ∀ rest, withoutTokens py (gap ++ rest) = ws ++ withoutTokens py rest := by
  induction h with
  | nil => exact ⟨[], by simp [Spaces], fun _ => rfl⟩
  | @space c text hc _ ih =>
      obtain ⟨ws, hws, hblank⟩ := ih
      refine ⟨c :: ws, List.forall_mem_cons.mpr ⟨hc, hws⟩, fun rest => ?_⟩
      have hne : c ≠ '(' := by
        rintro rfl
        exact absurd hc (by decide)
      rw [List.cons_append, List.cons_append, ← hblank, withoutTokens, blankTokens, tokenLength,
        if_neg hne]
      rfl
  | token ht _ ih =>
      obtain ⟨ws, hws, hblank⟩ := ih
      refine ⟨' ' :: ws, List.forall_mem_cons.mpr ⟨by decide, hws⟩, fun rest => ?_⟩
      rw [List.append_assoc, ht.withoutTokens_append, hblank, List.cons_append]

theorem Envelopes.assignments (hpy : py.Lawful) (h : Envelopes py rest os) :
    Assignments py (withoutTokens py rest) os := by
  induction h with
  | nil hgap =>
      obtain ⟨ws, hws, hblank⟩ := hgap.blank
      have hnil := hblank []
      have hempty : withoutTokens py [] = [] := rfl
      rw [List.append_nil, hempty, List.append_nil] at hnil
      exact .nil (hnil ▸ hws)
  | cons hgap hgap' htext hfree _ ih =>
      obtain ⟨ws, hws, hblank⟩ := hgap.blank
      obtain ⟨ws', hws', hblank'⟩ := hgap'.blank
      have hassign : ∀ rest, withoutTokens py ('=' :: rest) = '=' :: withoutTokens py rest :=
        fun rest => by rw [withoutTokens, blankTokens, tokenLength, if_neg (by decide)]; rfl
      rw [hblank, hassign, hblank', withoutTokens_text hpy htext hfree]
      exact .cons hws hws' htext ih

theorem Assignments.append_spaces (h : Assignments py rest os) (hws : Spaces ws) :
    Assignments py (rest ++ ws) os := by
  induction h with
  | nil hspaces => exact .nil fun c hc => (List.mem_append.mp hc).elim (hspaces c) (hws c)
  | cons hleft hright htext _ ih =>
      have hcons := Assignments.cons hleft hright htext ih
      simpa only [List.append_assoc, List.cons_append] using hcons

theorem Assignments.spaces_append (h : Assignments py rest os) (hws : Spaces ws) :
    Assignments py (ws ++ rest) os := by
  cases h with
  | nil hspaces => exact .nil fun c hc => (List.mem_append.mp hc).elim (hws c) (hspaces c)
  | cons hleft hright htext hrest =>
      rw [← List.append_assoc]
      exact .cons (fun c hc => (List.mem_append.mp hc).elim (hws c) (hleft c)) hright htext hrest

/-- The loop takes what the grammar has. -/
theorem extraAssignments_of_assignments (hpy : py.Lawful) (h : Assignments py rest os)
    (hfree : TokenFree py rest) {fuel : Nat} (hfuel : (strip rest).length < fuel) :
    extraAssignments py fuel (strip rest) = some (os.map .obj) := by
  induction h generalizing fuel with
  | nil hws =>
      obtain ⟨fuel, rfl⟩ := Nat.exists_eq_succ_of_ne_zero (Nat.ne_zero_of_lt hfuel)
      rw [strip_spaces hws, extraAssignments, if_pos rfl, List.map_nil]
  | @cons ws ws' text rest o os hws hws' htext hrest ih =>
      obtain ⟨fuel, rfl⟩ := Nat.exists_eq_succ_of_ne_zero (Nat.ne_zero_of_lt hfuel)
      have hrestFree : TokenFree py rest := by
        rw [← List.cons_append, ← List.append_assoc, ← List.append_assoc] at hfree
        exact hfree.of_suffix
      have hwhole : strip (ws ++ '=' :: (ws' ++ (text ++ rest))) =
          '=' :: (ws' ++ (text ++ rest.rdropWhile isPySpace)) := by
        rw [strip_spaces_cons hws (by decide), rdropWhile_text hpy htext]
      have hinner : strip (dropPrefix ('=' :: (ws' ++ (text ++ rest.rdropWhile isPySpace)))) =
          text ++ rest.rdropWhile isPySpace := by
        have hstrip := strip_text hpy htext (by simp [Spaces] : Spaces [])
          (rest.rdropWhile isPySpace)
        rw [dropPrefix_assigned_text hpy htext hws']
        rwa [List.nil_append, List.rdropWhile_idempotent] at hstrip
      have hlength : (strip rest).length < fuel := by
        have hle := (List.dropWhile_suffix (l := rest.rdropWhile isPySpace) isPySpace).length_le
        rw [hwhole] at hfuel
        simp only [List.length_cons, List.length_append] at hfuel
        rw [strip]
        omega
      have hne : text ++ rest.rdropWhile isPySpace ≠
          '=' :: (ws' ++ (text ++ rest.rdropWhile isPySpace)) := by
        intro heq
        have hlengths := congrArg List.length heq
        simp only [List.length_cons, List.length_append] at hlengths
        omega
      rw [hwhole, extraAssignments, if_neg (List.cons_ne_nil _ _)]
      simp only [hinner, if_neg hne, htext.decode hpy, List.drop_left',
        hrestFree.rdropWhile.withoutTokens_eq, strip_rdropWhile, ih hrestFree hlength]
      rfl

/-- And nothing else. -/
theorem assignments_of_extraAssignments (hpy : py.Lawful) {fuel : Nat} {payloads : List Json}
    (h : extraAssignments py fuel (strip rest) = some payloads) (hfree : TokenFree py rest) :
    ∃ os, payloads = os.map .obj ∧ Assignments py rest os := by
  induction fuel generalizing rest payloads with
  | zero => cases h
  | succ fuel ih =>
      obtain ⟨ws, ws', hws, hws', hsplit⟩ := exists_strip rest
      suffices ∃ os, payloads = os.map .obj ∧ Assignments py (strip rest) os by
        obtain ⟨os, hos, hassign⟩ := this
        rw [hsplit]
        exact ⟨os, hos, (hassign.append_spaces hws').spaces_append hws⟩
      have hstripFree := hfree.strip
      rcases strip_cases rest with hnil | ⟨c, tail, hcons, hc, htail⟩
      · rw [hnil, extraAssignments, if_pos rfl] at h
        rw [hnil]
        exact ⟨[], (Option.some.inj h).symm, .nil (by simp [Spaces])⟩
      · rw [hcons] at h hstripFree ⊢
        rw [extraAssignments, if_neg (List.cons_ne_nil _ _)] at h
        simp only at h
        split at h
        · cases h
        next hne =>
        have hassign : c = '=' := by
          by_contra hplain
          refine hne ?_
          rw [dropPrefix_plain hc hplain, ← List.nil_append (c :: tail),
            strip_spaces_cons (by simp [Spaces]) hc, htail, List.nil_append]
        subst hassign
        have hstarts : dropPrefix ('=' :: tail) = tail.dropWhile isPySpace := rfl
        rw [hstarts] at h
        obtain ⟨ws₁, ws₂, hws₁, hws₂, hinner⟩ := exists_strip (tail.dropWhile isPySpace)
        generalize strip (tail.dropWhile isPySpace) = inner at h hinner
        have hwhole : '=' :: tail = [] ++ '=' :: ((tail.takeWhile isPySpace ++ ws₁) ++
            (inner ++ ws₂)) := by
          rw [List.nil_append, List.append_assoc, ← hinner, List.takeWhile_append_dropWhile]
        have hinnerFree : TokenFree py inner := by
          rw [hwhole, List.nil_append, ← List.cons_append] at hstripFree
          exact hstripFree.within
        split at h
        · next fields n hdecode =>
            have htext := isText_take hpy hdecode
            have hafterFree : TokenFree py (inner.drop n) := by
              rw [← List.take_append_drop n inner] at hinnerFree
              exact hinnerFree.of_suffix
            obtain ⟨payloads, hpayloads, rfl⟩ := Option.map_eq_some_iff.mp h
            rw [hafterFree.withoutTokens_eq] at hpayloads
            obtain ⟨os, rfl, hafter⟩ := ih hpayloads hafterFree
            refine ⟨fields :: os, rfl, ?_⟩
            rw [hwhole, ← List.take_append_drop n inner, List.append_assoc (inner.take n)]
            exact .cons (by simp [Spaces]) (fun c hc => (List.mem_append.mp hc).elim
              (fun hc => List.mem_takeWhile_imp hc) (hws₁ c)) htext (hafter.append_spaces hws₂)
        · cases h

/-- `_extra_assignment_envelopes` takes the texts of the grammar. -/
theorem extraAssignmentEnvelopes_iff (hpy : py.Lawful) (hfree : TokenFree py rest)
    {payloads : List Json} : extraAssignmentEnvelopes py (strip rest) = some payloads ↔
      ∃ os, payloads = os.map .obj ∧ Assignments py rest os := by
  rw [extraAssignmentEnvelopes, hfree.strip.withoutTokens_eq, strip_strip]
  constructor
  · exact fun h => assignments_of_extraAssignments hpy h hfree
  · rintro ⟨os, rfl, hassign⟩
    exact extraAssignments_of_assignments hpy hassign hfree (Nat.lt_succ_self _)

/-! ## The envelope of a response -/

theorem firstValue_eq {value : Json} {after : List Char} (h : FirstValue py text value after) :
    firstValue py text = some (value, after) := by
  cases h with
  | start h => rw [firstValue, h]
  | @brace junk object _ n h htext hjunk hobject =>
      have hdrop : text.dropWhile (· ≠ '{') = '{' :: object := by
        rw [htext, List.dropWhile_append_of_pos fun c hc => ?_]
        · rfl
        · exact decide_eq_true fun heq => hjunk (heq ▸ hc)
      rw [firstValue, h]
      simp only [hdrop, hobject, Option.map_some]

/-- What is decoded of a response. -/
theorem Response.cleaned_eq (hpy : py.Lawful) {raw : List Char} (h : Response py raw o os) :
    ∃ text rest, IsText py o text ∧ Envelopes py rest os ∧
      cleaned py raw = text ++ (withoutTokens py rest).rdropWhile isPySpace := by
  have hclean : ∀ {text : List Char}, IsText py o text → TokenFree py text → ∀ rest,
      strip (withoutTokens py (text ++ rest.rdropWhile isPySpace)) =
        text ++ (withoutTokens py rest).rdropWhile isPySpace := by
    intro text htext hfree rest
    have hstrip := strip_text hpy htext (by simp [Spaces] : Spaces [])
      (withoutTokens py (rest.rdropWhile isPySpace))
    rw [withoutTokens_text hpy htext hfree, ← rdropWhile_withoutTokens hpy]
    exact hstrip
  cases h with
  | @plain ws text rest _ _ hws htext hfree hrest =>
      refine ⟨text, rest, htext, hrest, ?_⟩
      rw [cleaned, strip_text hpy htext hws, dropPrefix_text hpy htext, hclean htext hfree]
  | @assigned ws ws' text rest _ _ hws hws' htext hfree hrest =>
      refine ⟨text, rest, htext, hrest, ?_⟩
      rw [cleaned, strip_spaces_cons hws (by decide), rdropWhile_text hpy htext,
        dropPrefix_assigned_text hpy htext hws', hclean htext hfree]

theorem find?_isEnvelope (expected : String) (os : List JsonObject) :
    (os.map Json.obj).find? (isEnvelope expected) = (os.find? (hasType expected)).map .obj := by
  rw [List.find?_map]
  rfl

/-- Of a response, the first object of the expected type is returned. -/
theorem parseEnvelope_response (hpy : py.Lawful) {raw : List Char} (h : Response py raw o os)
    (hlength : raw.length < rconApplicationBudget) {expected : String} {p : JsonObject}
    (hfind : (o :: os).find? (hasType expected) = some p) :
    parseEnvelope py raw (some expected) = .ok p := by
  obtain ⟨text, rest, htext, hrest, hcleaned⟩ := h.cleaned_eq hpy
  have hassign := hrest.assignments hpy
  have hfree : TokenFree py (withoutTokens py rest) := tokenFree_blankTokens hpy 0 rest
  have hfirst : firstValue py (cleaned py raw) =
      some (.obj o, (withoutTokens py rest).rdropWhile isPySpace) := by
    simp only [hcleaned, firstValue, htext.decode hpy, List.drop_left']
  have hselect : selectPayload py (.obj o) (strip (withoutTokens py rest)) (some expected) =
      .ok (.obj p) := by
    rw [selectPayload]
    split
    · next hnil =>
        -- nothing follows
        have hos : os = [] := by
          have hextra := extraAssignments_of_assignments hpy hassign hfree (Nat.lt_succ_self _)
          rw [hnil, extraAssignments, if_pos rfl] at hextra
          exact List.map_eq_nil_iff.mp (Option.some.inj hextra).symm
        rw [hos, List.find?_singleton] at hfind
        split at hfind
        · rw [Option.some.inj hfind]
        · cases hfind
    · rw [(extraAssignmentEnvelopes_iff hpy hfree).mpr ⟨os, rfl, hassign⟩]
      simp only
      rw [← List.map_cons, find?_isEnvelope, hfind]
      rfl
  rw [parseEnvelope, if_neg (not_le.mpr hlength), hfirst]
  simp only [strip_rdropWhile, hselect]
  rfl

/-- What no grammar covers is refused. -/
theorem parseEnvelope_junk (hpy : py.Lawful) {raw : List Char} (expectedType : Option String)
    (hlength : raw.length < rconApplicationBudget) {value : Json} {after : List Char}
    (hfirst : FirstValue py (cleaned py raw) value after) (hjunk : ∀ os, ¬ Assignments py after os) :
    ∃ message, parseEnvelope py raw expectedType = .error (.envelope message) := by
  have hfree : TokenFree py after := by
    have hcleaned : TokenFree py (cleaned py raw) := (tokenFree_blankTokens hpy 0 _).strip
    cases hfirst with
    | start _ =>
        rw [← List.take_append_drop _ (cleaned py raw)] at hcleaned
        exact hcleaned.of_suffix
    | @brace junk object _ n _ htext _ _ =>
        rw [htext] at hcleaned
        have hobject := hcleaned.of_suffix
        rw [← List.take_append_drop n ('{' :: object)] at hobject
        exact hobject.of_suffix
  have hextra : extraAssignmentEnvelopes py (strip after) = none := by
    rw [Option.eq_none_iff_forall_ne_some]
    intro payloads hsome
    obtain ⟨os, -, hassign⟩ := (extraAssignmentEnvelopes_iff hpy hfree).mp hsome
    exact hjunk os hassign
  have hne : strip after ≠ [] := by
    intro hnil
    rw [hnil] at hextra
    cases hextra
  rw [parseEnvelope, if_neg (not_le.mpr hlength), firstValue_eq hfirst]
  simp only [selectPayload, if_neg hne, hextra]
  exact ⟨_, rfl⟩

/-! ## A reader of a few texts -/

/-- Reads the objects of these texts. -/
def tableReader (table : List (List Char × JsonObject)) : Python where
  isDecimal := Char.isDigit
  rawDecode text := (table.find? fun entry => entry.1.isPrefixOf text).map fun entry =>
    (.obj entry.2, entry.1.length)
  repr := .ofList

theorem tableReader_lawful {table : List (List Char × JsonObject)}
    (hbraces : ∀ entry ∈ table, entry.1 = '{' :: (entry.1.tail.dropLast ++ ['}']))
    (hapart : table.Pairwise fun entry entry' =>
      entry.1.isPrefixOf entry'.1 = false ∧ entry'.1.isPrefixOf entry.1 = false) :
    (tableReader table).Lawful := by
  have hfound : ∀ {text o n}, (tableReader table).rawDecode text = some (.obj o, n) →
      ∃ entry, table.find? (fun entry => entry.1.isPrefixOf text) = some entry ∧
        entry.2 = o ∧ entry.1.length = n ∧ entry.1 <+: text := by
    intro text o n h
    obtain ⟨entry, hentry, heq⟩ := Option.map_eq_some_iff.mp h
    obtain ⟨ho, hn⟩ := Prod.mk.inj heq
    have hstarts := List.find?_some hentry
    exact ⟨entry, hentry, Json.obj.inj ho, hn, List.isPrefixOf_iff_prefix.mp hstarts⟩
  refine ⟨fun c hc => ?_, fun h => ?_, fun h => ?_, fun h rest => ?_⟩
  · have hrange : 48 ≤ c.toNat ∧ c.toNat ≤ 57 := by
      simpa [tableReader, Char.isDigit, UInt32.le_iff_toNat_le] using hc
    refine ⟨?_, ?_, ?_⟩
    · simp only [isPySpace, Bool.or_eq_false_iff, Bool.and_eq_false_iff,
        decide_eq_false_iff_not, beq_eq_false_iff_ne]
      omega
    · rintro rfl
      exact absurd hrange (by decide)
    · rintro rfl
      exact absurd hrange (by decide)
  · obtain ⟨entry, -, -, rfl, hstarts⟩ := hfound h
    exact hstarts.length_le
  · obtain ⟨entry, hentry, -, rfl, hstarts⟩ := hfound h
    rw [← List.prefix_iff_eq_take.mp hstarts]
    exact ⟨_, hbraces entry (List.mem_of_find?_eq_some hentry)⟩
  · obtain ⟨entry, hentry, rfl, rfl, hstarts⟩ := hfound h
    obtain ⟨-, before, after, htable, -⟩ := List.find?_eq_some_iff_append.mp hentry
    rw [← List.prefix_iff_eq_take.mp hstarts]
    refine Option.map_eq_some_iff.mpr ⟨entry, List.find?_eq_some_iff_append.mpr
      ⟨List.isPrefixOf_iff_prefix.mpr (List.prefix_append _ _), before, after, htable, ?_⟩, rfl⟩
    intro other hother
    have hdistinct := (List.pairwise_append.mp (htable ▸ hapart)).2.2 other hother entry
      List.mem_cons_self
    rw [Bool.not_eq_true', Bool.eq_false_iff]
    intro hother
    rcases List.prefix_or_prefix_of_prefix (List.isPrefixOf_iff_prefix.mp hother)
      (List.prefix_append entry.1 rest) with hle | hle
    · exact absurd (List.isPrefixOf_iff_prefix.mpr hle) (by simp [hdistinct.1])
    · exact absurd (List.isPrefixOf_iff_prefix.mpr hle) (by simp [hdistinct.2])

def resultText : List Char := "\x7b\"type\":\"result\"\x7d".toList

def stateText : List Char := "\x7b\"type\":\"state\"\x7d".toList

def chatText : List Char := "\x7b\"type\":\"chat\",\"text\":\"(5ms)\"\x7d".toList

/-- The chat text with a blank for the token. -/
def blankedText : List Char := "\x7b\"type\":\"chat\",\"text\":\" \"\x7d".toList

def reader : Python :=
  tableReader [(resultText, [("type", .str "result")]), (stateText, [("type", .str "state")]),
    (chatText, [("type", .str "chat"), ("text", .str "(5ms)")]),
    (blankedText, [("type", .str "chat"), ("text", .str " ")])]

theorem reader_lawful : reader.Lawful :=
  tableReader_lawful (by decide +kernel) (by decide +kernel)

variable (py) in
/-- **An envelope arrives unchanged.** A response without timing tokens in the
texts of its objects gives the first object of the expected type; a response whose
first value is followed by anything but such envelopes is refused, and so is
one that reaches the budget. -/
theorem parseEnvelope_spec (hpy : py.Lawful) :
    (∀ raw o os, Response py raw o os → raw.length < rconApplicationBudget →
      ∀ expected p, (o :: os).find? (hasType expected) = some p →
        parseEnvelope py raw (some expected) = .ok p) ∧
    (∀ raw expectedType value after, raw.length < rconApplicationBudget →
      FirstValue py (cleaned py raw) value after → (∀ os, ¬ Assignments py after os) →
        ∃ message, parseEnvelope py raw expectedType = .error (.envelope message)) ∧
    ∀ raw expectedType, rconApplicationBudget ≤ raw.length →
      ∃ message, parseEnvelope py raw expectedType = .error (.truncated message) := by
  refine ⟨fun raw o os h hlength expected p hfind => parseEnvelope_response hpy h hlength hfind,
    fun raw expectedType value after hlength hfirst hjunk =>
      parseEnvelope_junk hpy expectedType hlength hfirst hjunk,
    fun raw expectedType hlength => ?_⟩
  rw [parseEnvelope, if_pos hlength]
  exact ⟨_, rfl⟩

/-- A result, the time it took, and a state. -/
theorem state_behind_result : parseEnvelope reader
    (" = ".toList ++ (resultText ++ (" (1175µs) = ".toList ++ stateText))) (some "state") =
      .ok [("type", .str "state")] := by
  have hspace : Gap reader [' '] := .space (by decide) .nil
  have hgap : Gap reader (' ' :: ("(1175µs)".toList ++ [' '])) :=
    .space (by decide) (.token (by decide +kernel : IsToken reader "(1175µs)".toList) hspace)
  have hresult : IsText reader [("type", .str "result")] resultText := by decide +kernel
  have hstate : IsText reader [("type", .str "state")] stateText := by decide +kernel
  have hresponse := Response.assigned (by simp [Spaces, isPySpace] : Spaces [' '])
    (by simp [Spaces, isPySpace] : Spaces [' ']) hresult
    (tokenFree_iff.mpr (by decide +kernel))
    (.cons hgap hspace hstate (tokenFree_iff.mpr (by decide +kernel)) (.nil .nil))
  exact (parseEnvelope_spec reader reader_lawful).1 _ _ _ hresponse (by decide +kernel) "state"
    [("type", .str "state")] (by decide +kernel)

/-- A player says "(5ms)"; and junk behind an object, longer than the budget. -/
theorem chat_blanked :
    (¬ ∀ text o, IsText reader o text → hasType "chat" o = true →
      text.length < rconApplicationBudget → parseEnvelope reader text (some "chat") = .ok o) ∧
    ¬ ∃ message, parseEnvelope reader (resultText ++ List.replicate rconApplicationBudget 'x')
      (some "result") = .error (.envelope message) := by
  constructor
  · intro h
    have hread : parseEnvelope reader chatText (some "chat") =
        .ok [("type", .str "chat"), ("text", .str " ")] := by
      decide +kernel
    have hsame := h chatText [("type", .str "chat"), ("text", .str "(5ms)")] (by decide +kernel)
      (by decide) (by decide)
    rw [hread] at hsame
    exact absurd hsame (by decide)
  · rintro ⟨message, h⟩
    rw [parseEnvelope, if_pos (by rw [List.length_append, List.length_replicate]; omega)] at h
    exact absurd (Except.error.inj h) (by simp)

end

end ScarpetEnvelope

end MineBot
