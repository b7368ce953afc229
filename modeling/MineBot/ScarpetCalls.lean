import Mathlib
import MineBot.Json
import MineBot.Results

/-!
# Calls into the Scarpet app

What the game server is sent: one `script` command with a call whose
arguments are single-quoted literals. Chat and JSON go through `scarpetArg`
and `scarpetStringArg`, which escape quotes and backslashes.

The reader of a command is `lexCommand`. A literal ends at the first quote
no backslash stands before, so the escaped text is read back whole
(`lexFrom_escape`) and what follows it is code again.
-/

namespace MineBot

namespace Scarpet

/-! ## Writing a call -/

/-- `json.dumps(value, ensure_ascii=True, separators=(",", ":"))` and `json.loads`. -/
structure Python where
  dumps : Json → String
  loads : String → Option Json

def quote : Char := Char.ofNat 39

def backslash : Char := '\\'

/-- `text.replace(old, new)` for an `old` of one character. -/
def replaceChar (old : Char) (new text : List Char) : List Char :=
  text.flatMap fun c => if c = old then new else [c]

/-- The escapes of a literal: backslashes first, then quotes. -/
def escape (text : List Char) : List Char :=
  replaceChar quote [backslash, quote] (replaceChar backslash [backslash, backslash] text)

def quoted (text : String) : String := .ofList (quote :: escape text.toList ++ [quote])

/-- `_scarpet_arg` of a text. -/
def textArg (text : String) : Except String String :=
  if text.toList.any fun c => c.toNat < 32 || 126 < c.toNat then
    .error "Scarpet RCON arguments must be ASCII printable after JSON encoding"
  else .ok (quoted text)

/-- `_scarpet_arg`: a text is taken as it is, anything else as JSON. -/
def scarpetArg (py : Python) : Json → Except String String
  | .str text => textArg text
  | value => textArg (py.dumps value)

/-- A text on one line: carriage returns and newlines are blanks. -/
def oneLine (text : String) : String :=
  .ofList (replaceChar '\n' [' '] (replaceChar '\r' [' '] text.toList))

/-- `_scarpet_string_arg`. -/
def scarpetStringArg (value : String) : Except String String :=
  if (oneLine value).toList.any fun c => c.toNat < 32 then
    .error "Scarpet string arguments must not contain control characters"
  else .ok (quoted (oneLine value))

/-- A name is letters, digits and underscores. -/
def isNameChar (c : Char) : Bool := c.isAlphanum || c = '_'

/-- The name of a function of the app. -/
structure FunctionName where
  text : String
  nonempty : text ≠ ""
  isName : text.toList.all isNameChar = true

/-- `script in {app} run ` -/
def commandPrefix (app : String) : String := "script in " ++ app ++ " run "

/-- `_script_call`. -/
def scriptCall (py : Python) (app : String) (fn : FunctionName) (args : List Json) :
    Except String String := do
  let encoded ← args.mapM (scarpetArg py)
  .ok (commandPrefix app ++ (fn.text ++ "(" ++ ", ".intercalate encoded ++ ")"))

def minebotSay : FunctionName where
  text := "minebot_say"
  nonempty := by decide
  isName := by decide +kernel

/-- `build_say_call`. -/
def buildSayCall (app bot text : String) : Except String String := do
  let bot ← textArg bot
  let text ← scarpetStringArg text
  .ok (commandPrefix app ++ (minebotSay.text ++ "(" ++ bot ++ ", " ++ text ++ ")"))

/-! ## Reading a call -/

inductive Token where
  | name (text : String)
  | literal (value : String)
  | opening
  | closing
  | comma
deriving DecidableEq

/-- Where the reader stands: in code, after the start of a name if there is
one, in a literal, or in one behind a backslash. -/
inductive Mode where
  | code (name : List Char)
  | literal (value : List Char)
  | escaped (value : List Char)

/-- The name that ends here. -/
def pending (name : List Char) : List Token :=
  if name = [] then [] else [.name (.ofList name)]

/-- What a character of code stands for that is no name's and no quote. -/
def punctuation (c : Char) : Option (List Token) :=
  if c = '(' then some [.opening]
  else if c = ')' then some [.closing]
  else if c = ',' then some [.comma]
  else if c = ' ' then some []
  else none

/-- The tokens of a text. -/
def lexFrom : Mode → List Char → Option (List Token)
  | .code name, [] => some (pending name)
  | .code name, c :: cs =>
      if isNameChar c then lexFrom (.code (name ++ [c])) cs
      else if c = quote then (lexFrom (.literal []) cs).map (pending name ++ ·)
      else (punctuation c).bind fun tokens =>
        (lexFrom (.code []) cs).map (pending name ++ tokens ++ ·)
  | .literal _, [] => none
  | .literal value, c :: cs =>
      if c = backslash then lexFrom (.escaped value) cs
      else if c = quote then (lexFrom (.code []) cs).map (Token.literal (.ofList value) :: ·)
      else lexFrom (.literal (value ++ [c])) cs
  | .escaped _, [] => none
  | .escaped value, c :: cs => lexFrom (.literal (value ++ [c])) cs

/-- The tokens of the script that a command runs in the app. -/
def lexCommand (app command : String) : Option (List Token) :=
  if (commandPrefix app).toList.isPrefixOf command.toList then
    lexFrom (.code []) (command.toList.drop (commandPrefix app).length)
  else none

/-- A call with literals for arguments. -/
def callTokens (fn : String) (values : List String) : List Token :=
  [.name fn, .opening] ++ (values.map Token.literal).intersperse .comma ++ [.closing]

/-- The value of a literal stands for the argument. -/
def Denotes (py : Python) : Json → String → Prop
  | .str text, value => value = text
  | arg, value => py.loads value = some arg

/-! ## Literals -/

theorem escape_cons (c : Char) (text : List Char) :
    escape (c :: text) =
      (if c = backslash then [backslash, backslash]
        else if c = quote then [backslash, quote] else [c]) ++ escape text := by
  have hne : backslash ≠ quote := by decide
  rw [escape, replaceChar, replaceChar, List.flatMap_cons, List.flatMap_append]
  congr 1
  split
  · next h => simp [hne]
  · simp

/-- A literal is read back whole, and what follows it is code. -/
theorem lexFrom_escape (text value rest : List Char) :
    lexFrom (.literal value) (escape text ++ quote :: rest) =
      (lexFrom (.code []) rest).map (Token.literal (.ofList (value ++ text)) :: ·) := by
  have hne : quote ≠ backslash := by decide
  induction text generalizing value with
  | nil => simp [escape, replaceChar, lexFrom, hne]
  | cons c text ih =>
      have hread : lexFrom (.literal value) (escape (c :: text) ++ quote :: rest) =
          lexFrom (.literal (value ++ [c])) (escape text ++ quote :: rest) := by
        rw [escape_cons]
        split
        · next h => simp [lexFrom, h]
        · next h =>
            split
            · next h' => simp [lexFrom, h']
            · next h' => simp [lexFrom, h, h']
      rw [hread, ih, List.append_assoc, List.singleton_append]

theorem lexFrom_quoted (name : List Char) (text : String) (rest : List Char) :
    lexFrom (.code name) ((quoted text).toList ++ rest) =
      (lexFrom (.code []) rest).map (pending name ++ Token.literal text :: ·) := by
  have hname : isNameChar quote = false := by decide
  have hread := lexFrom_escape text.toList [] rest
  rw [List.nil_append, String.ofList_toList] at hread
  rw [quoted, String.toList_ofList, List.append_assoc, List.singleton_append, List.cons_append,
    lexFrom, if_neg (by rw [hname]; decide), if_pos rfl, hread, Option.map_map]
  rfl

/-! ## Code -/

theorem lexFrom_name {text : List Char} (h : text.all isNameChar = true) (name rest : List Char) :
    lexFrom (.code name) (text ++ rest) = lexFrom (.code (name ++ text)) rest := by
  induction text generalizing name with
  | nil => rw [List.append_nil, List.nil_append]
  | cons c text ih =>
      rw [List.all_cons, Bool.and_eq_true] at h
      rw [List.cons_append, lexFrom, if_pos h.1, ih h.2, List.append_assoc, List.singleton_append]

theorem lexFrom_comma (rest : List Char) :
    lexFrom (.code []) (", ".toList ++ rest) = (lexFrom (.code []) rest).map (Token.comma :: ·) := by
  show lexFrom (.code []) (',' :: ' ' :: rest) = _
  have hcomma : isNameChar ',' = false ∧ ',' ≠ quote := by decide
  have hblank : isNameChar ' ' = false ∧ ' ' ≠ quote := by decide
  simp [lexFrom, hcomma, hblank, punctuation, pending]

theorem lexFrom_opening (name rest : List Char) :
    lexFrom (.code name) ("(".toList ++ rest) =
      (lexFrom (.code []) rest).map (pending name ++ [.opening] ++ ·) := by
  show lexFrom (.code name) ('(' :: rest) = _
  have hopening : isNameChar '(' = false ∧ '(' ≠ quote := by decide
  simp [lexFrom, hopening, punctuation]

theorem lexFrom_closing : lexFrom (.code []) ")".toList = some [.closing] := by
  decide

/-- The arguments of a call are as many literals. -/
theorem lexFrom_args (values : List String) :
    lexFrom (.code []) ((", ".intercalate (values.map quoted)).toList ++ ")".toList) =
      some ((values.map Token.literal).intersperse .comma ++ [.closing]) := by
  rw [String.toList_intercalate]
  induction values with
  | nil => exact lexFrom_closing
  | cons value values ih =>
      cases values with
      | nil =>
          simp only [List.map_cons, List.map_nil, List.intercalate_singleton]
          rw [lexFrom_quoted, lexFrom_closing]
          rfl
      | cons next values =>
          simp only [List.map_cons] at ih ⊢
          rw [List.intercalate_cons_cons, List.append_assoc, List.append_assoc, lexFrom_quoted,
            lexFrom_comma, ih]
          rfl

theorem lexCommand_call (app : String) (fn : FunctionName) (values : List String) :
    lexCommand app (commandPrefix app ++ (fn.text ++ "(" ++ ", ".intercalate (values.map quoted) ++ ")")) =
      some (callTokens fn.text values) := by
  have hprefix : (commandPrefix app).toList.isPrefixOf ((commandPrefix app).toList ++
      (fn.text ++ "(" ++ ", ".intercalate (values.map quoted) ++ ")").toList) = true :=
    List.isPrefixOf_iff_prefix.mpr (List.prefix_append _ _)
  have hne : fn.text.toList ≠ [] := by
    intro h
    exact fn.nonempty (String.toList_eq_nil_iff.mp h)
  rw [lexCommand, String.toList_append, if_pos hprefix, ← String.length_toList, List.drop_left]
  simp only [String.toList_append, List.append_assoc]
  rw [lexFrom_name fn.isName, lexFrom_opening, lexFrom_args]
  simp [callTokens, pending, hne]

/-! ## Accepted arguments -/

theorem textArg_eq_ok {text encoded : String} (h : textArg text = .ok encoded) :
    encoded = quoted text := by
  rw [textArg] at h
  split at h
  · cases h
  · cases h
    rfl

theorem scarpetStringArg_eq_ok {value encoded : String}
    (h : scarpetStringArg value = .ok encoded) : encoded = quoted (oneLine value) := by
  rw [scarpetStringArg] at h
  split at h
  · cases h
  · exact (Except.ok.inj h).symm

/-- What an argument is written as: the text of it, quoted. -/
theorem scarpetArg_eq_ok {py : Python} {arg : Json} {encoded : String}
    (h : scarpetArg py arg = .ok encoded) (hjson : py.loads (py.dumps arg) = some arg) :
    ∃ value, encoded = quoted value ∧ Denotes py arg value := by
  cases arg with
  | str text => exact ⟨text, textArg_eq_ok h, rfl⟩
  | _ => exact ⟨_, textArg_eq_ok h, hjson⟩

theorem mapM_scarpetArg {py : Python} {args : List Json} {encoded : List String}
    (h : args.mapM (scarpetArg py) = .ok encoded)
    (hjson : ∀ arg ∈ args, py.loads (py.dumps arg) = some arg) :
    ∃ values, encoded = values.map quoted ∧ List.Forall₂ (Denotes py) args values := by
  induction args generalizing encoded with
  | nil =>
      cases h
      exact ⟨[], rfl, .nil⟩
  | cons arg args ih =>
      rw [List.mapM_cons] at h
      obtain ⟨first, hfirst, h⟩ := bind_eq_ok.mp h
      obtain ⟨others, hothers, h⟩ := bind_eq_ok.mp h
      cases h
      obtain ⟨value, rfl, hvalue⟩ := scarpetArg_eq_ok hfirst (hjson arg List.mem_cons_self)
      obtain ⟨values, rfl, hvalues⟩ :=
        ih hothers fun arg harg => hjson arg (List.mem_cons_of_mem _ harg)
      exact ⟨value :: values, rfl, .cons hvalue hvalues⟩

/-! ## Calls -/

/-- **A call is read as it was meant**, whatever its arguments hold: the
function, and a literal for each argument that stands for it. A message is
said on one line. -/
theorem calls_read_back (py : Python) (app : String) (fn : FunctionName) (args : List Json)
    (bot text : String) (hjson : ∀ arg ∈ args, py.loads (py.dumps arg) = some arg) :
    (∀ command, scriptCall py app fn args = .ok command →
      ∃ values, lexCommand app command = some (callTokens fn.text values) ∧
        List.Forall₂ (Denotes py) args values) ∧
    ∀ command, buildSayCall app bot text = .ok command →
      lexCommand app command = some (callTokens "minebot_say" [bot, oneLine text]) := by
  constructor
  · intro command h
    obtain ⟨encoded, hencoded, h⟩ := bind_eq_ok.mp h
    cases h
    obtain ⟨values, rfl, hvalues⟩ := mapM_scarpetArg hencoded hjson
    exact ⟨values, lexCommand_call app fn values, hvalues⟩
  · intro command h
    obtain ⟨botArg, hbot, h⟩ := bind_eq_ok.mp h
    obtain ⟨said, hsaid, h⟩ := bind_eq_ok.mp h
    obtain rfl := Except.ok.inj h
    have hargs : minebotSay.text ++ "(" ++ botArg ++ ", " ++ said ++ ")" =
        minebotSay.text ++ "(" ++ ", ".intercalate ([bot, oneLine text].map quoted) ++ ")" := by
      have hpair : ", ".intercalate [quoted bot, quoted (oneLine text)] =
          quoted bot ++ ", " ++ quoted (oneLine text) := rfl
      rw [textArg_eq_ok hbot, scarpetStringArg_eq_ok hsaid, List.map_cons, List.map_cons,
        List.map_nil, hpair]
      simp only [String.append_assoc]
    rw [hargs]
    exact lexCommand_call app minebotSay [bot, oneLine text]

/-- The texts that `json` has for the arguments of the call below. -/
def sampleJson : Python where
  dumps
    | .str _ => "\"Bot\\\\\""
    | _ => "[\"it's\"]"
  loads text := if text = "[\"it's\"]" then some (.arr [.str "it's"]) else some (.str "Bot\\")

/-- A name that ends in a backslash and a quote in JSON are no way out. -/
theorem calls_read_back_quotes :
    ∃ command, scriptCall sampleJson "minebot" minebotSay [.str "Bot\\", .arr [.str "it's"]] =
        .ok command ∧
      ∃ values, lexCommand "minebot" command = some (callTokens "minebot_say" values) ∧
        List.Forall₂ (Denotes sampleJson) [.str "Bot\\", .arr [.str "it's"]] values := by
  have hcall : scriptCall sampleJson "minebot" minebotSay [.str "Bot\\", .arr [.str "it's"]] =
      .ok "script in minebot run minebot_say('Bot\\\\', '[\"it\\'s\"]')" := by decide +kernel
  exact ⟨_, hcall, (calls_read_back sampleJson "minebot" minebotSay _ "" "" (by decide)).1 _ hcall⟩

end Scarpet

end MineBot
