import MineBot.Regex
import MineBot.ResponsesKernel

/-!
# Skill documents

`app/skill_format.py`: a `SKILL.md` is YAML between two `---` lines and a body in
Markdown. `parseSkillMarkdown` reads one and writes its canonical text, which the
digest of a version is taken of; `buildSkillMarkdown` goes the same way from the
fields.

`Yaml` stands for PyYAML. It composes nodes whose scalars have been resolved;
`construct` is the loader of the source, that refuses merge keys and duplicates.
The position that a YAML error adds to its text is left out.
-/

namespace MineBot

namespace SkillFormat

open Regex

/-! ## What Python and PyYAML give -/

/-- A scalar as the loader makes it; any other value is told by what it equals. -/
inductive Scalar where
  | text (value : String)
  | null
  | other (value : String)
deriving DecidableEq

/-- A `YAMLError`, or the exception of a constructor such as that of dates. -/
inductive YamlFailure where
  | yaml (problem : String)
  | other (text : String)
deriving DecidableEq

inductive Node where
  | scalar (value : Scalar)
  /-- a scalar that cannot be constructed -/
  | broken (failure : YamlFailure)
  | sequence (items : List Node)
  | mapping (pairs : List (Node × Node))

inductive Token where
  /-- an alias, an anchor or a tag -/
  | reference
  | other
deriving DecidableEq

structure Yaml where
  /-- `yaml.scan` -/
  scan : List Char → Except String (List Token)
  /-- the document that `yaml.load` composes, if there is one -/
  compose : List Char → Except String (Option Node)
  /-- the node of a plain scalar that is one word -/
  plain : List Char → Node

structure SkillPython where
  casefold : String → String
  /-- a character of `\w` -/
  isWord : Char → Bool
  repr : Scalar → String
  /-- `hashlib.sha256(…).hexdigest()` -/
  sha256 : String → String

/-! ## Patterns -/

def space : Regex := .char isPySpace

/-- `.` -/
def anyChar : Regex := .char (· ≠ '\n')

/-- `^` of a pattern with `re.MULTILINE` -/
def lineStart : Regex := .check fun s => s.before.all (· = '\n')

/-- The letter, or one that `re.IGNORECASE` takes for it; `c` is a small letter. -/
def ignoringCase (c : Char) : Regex :=
  .char fun x => x.toLower = c || (c = 's' && x.toNat = 0x17f) || (c = 'k' && x.toNat = 0x212a)
    || (c = 'i' && (x.toNat = 0x130 || x.toNat = 0x131))

def phrase (text : String) : Regex := .text ignoringCase text.toList

def exactly (text : String) : Regex := .text lit text.toList

def isSmall (c : Char) : Bool := c.isDigit || c.isLower

def isNameChar (c : Char) : Bool := isSmall c || c = '-'

/-- `SKILL_NAME_PATTERN` -/
def skillNamePattern : Regex :=
  .seq (plus (.char isSmall)) (.many (.seq (lit '-') (plus (.char isSmall))))

/-- `_MARKDOWN_LINK` -/
def markdownLink : Regex :=
  chain [opt (lit '!'), lit '[', .many (.char fun c => c ≠ ']' && c ≠ '\n'), lit ']', lit '(',
    plus (.char fun c => c ≠ ')' && c ≠ '\n'), lit ')']

/-- `#\s+\S.*` -/
def firstHeading : Regex :=
  chain [lit '#', plus space, .char fun c => !isPySpace c, .many anyChar]

/-- `##\s+(.+)` -/
def secondHeading : Regex := chain [lit '#', lit '#', plus space, plus anyChar]

section

variable (py : SkillPython)

/-- `\b` -/
def boundary : Regex := .check fun s => s.before.any py.isWord != s.rest.head?.any py.isWord

/-- `_RAW_SERVER_COMMAND` -/
def rawServerCommand : Regex :=
  chain [.alt lineStart space, opt (lit (Char.ofNat 96)), lit '/',
    oneOf (["player", "execute", "give", "setblock", "fill", "summon", "kill", "tp", "gamemode",
      "script"].map phrase),
    boundary py]

/-- `_RAW_SCARPET_ENTRYPOINT` -/
def rawScarpetEntrypoint : Regex :=
  chain [boundary py, phrase "minebot_",
    oneOf (["action", "perceive", "state", "reset", "interrupt"].map phrase), .many space, lit '(']

/-- `_UNSAFE_DIRECTIVE` -/
def unsafeDirective : Regex :=
  chain [boundary py, oneOf (["bypass", "disable", "ignore", "override"].map phrase), plus space,
    opt (.seq (phrase "the") (plus space)),
    oneOf [phrase "governance", phrase "block protection",
      .seq (phrase "permission") (opt (phrase "s")), phrase "tool registry", phrase "terminal truth"],
    boundary py]

/-- `_FALSE_SUCCESS_DIRECTIVE` -/
def falseSuccessDirective : Regex :=
  chain [boundary py, oneOf (["assume", "claim", "report", "treat"].map phrase), boundary py,
    .upTo 40 anyChar, boundary py, phrase "success",
    opt (.seq (phrase "ful") (opt (phrase "ly"))), boundary py]

/-- At least `n` characters of a class. -/
def atLeast (n : Nat) (accepts : Char → Bool) : Regex :=
  .seq (times n (.char accepts)) (.many (.char accepts))

/-- `_SECRET_PATTERN` -/
def secretPattern : Regex :=
  oneOf [
    chain [boundary py, exactly "sk-", atLeast 20 fun c => c.isAlphanum || c = '_' || c = '-',
      boundary py],
    chain [boundary py, exactly "gh", .char (· ∈ "pousr".toList), lit '_', atLeast 20 Char.isAlphanum,
      boundary py],
    chain [boundary py, exactly "AIza", atLeast 30 fun c => c.isAlphanum || c = '_' || c = '-',
      boundary py],
    chain [exactly "-----BEGIN ", .many (.char fun c => c.isUpper || c = ' '),
      exactly "PRIVATE KEY-----"]]

end

/-! ## Failures and values -/

structure SkillFormatError where
  message : String
  code : String := "skill_format_invalid"
deriving DecidableEq

/-- What `parse_skill_markdown` raises. -/
inductive Failure where
  | format (error : SkillFormatError)
  | other (text : String)
deriving DecidableEq

def refuse {α : Type} (message : String) : Except Failure α := .error (.format { message })

/-- A constructed value; the keys of a mapping are hashable. -/
inductive Value where
  | scalar (value : Scalar)
  | list (items : List Value)
  | mapping (pairs : List (Scalar × Value))

def Value.text? : Value → Option String
  | .scalar (.text value) => some value
  | _ => none

section

variable (py : SkillPython)

mutual

def construct : Node → Except YamlFailure Value
  | .scalar value => .ok (.scalar value)
  | .broken failure => .error failure
  | .sequence items => (constructItems items).map .list
  | .mapping pairs => (constructPairs [] pairs).map .mapping

def constructItems : List Node → Except YamlFailure (List Value)
  | [] => .ok []
  | item :: items =>
      match construct item with
      | .error failure => .error failure
      | .ok value => (constructItems items).map (value :: ·)

/-- `_construct_unique_mapping`, on a mapping that has `pairs` already. -/
def constructPairs (pairs : List (Scalar × Value)) :
    List (Node × Node) → Except YamlFailure (List (Scalar × Value))
  | [] => .ok pairs
  | (keyNode, valueNode) :: rest =>
      match construct keyNode with
      | .error failure => .error failure
      | .ok (.scalar key) =>
          if key = .text "<<" then .error (.yaml "YAML merge keys are not allowed")
          else if key ∈ pairs.map Prod.fst then
            .error (.yaml ("duplicate YAML key: " ++ py.repr key))
          else
            match construct valueNode with
            | .error failure => .error failure
            | .ok value => constructPairs (pairs ++ [(key, value)]) rest
      | .ok _ => .error (.yaml "YAML mapping keys must be scalar strings")

end

end

/-! ## The fields -/

def maxSkillNameChars : Nat := 64
def maxSkillDescriptionChars : Nat := 320
def maxSkillBodyChars : Nat := 8000
def maxSkillBodyLines : Nat := 200

/-- `REQUIRED_SKILL_SECTIONS` -/
def requiredSkillSections : List String :=
  ["Use When", "Do Not Use When", "Method", "Evidence Of Success", "Failure And Adaptation",
    "Boundaries"]

def frontmatterFields : List String := ["name", "description", "tools"]

/-- `_GENERIC_DESCRIPTIONS` -/
def genericDescriptions : List String :=
  ["helps with tasks", "help with tasks", "useful skill", "does things", "general methodology"]

/-- `" ".join(text.split())` -/
def joinWords (text : String) : String := .ofList ([' '].intercalate (pySplit text.toList))

/-- `sorted` -/
def sorted (texts : List String) : List String := texts.insertionSort (· ≤ ·)

/-- `text.rstrip(".!?")` -/
def rstripMarks (text : String) : String :=
  .ofList (text.toList.rdropWhile fun c => c = '.' || c = '!' || c = '?')

/-- `_validate_name` -/
def validateName (value : Option Value) : Except Failure String :=
  match value.bind Value.text? with
  | none => refuse "Skill name must be a string"
  | some text =>
      let clean := pyStrip text
      if maxSkillNameChars < clean.length ∨ ¬ skillNamePattern.fullmatch clean.toList then
        refuse "Skill name must be lowercase hyphen-case and at most 64 characters"
      else .ok clean

/-- `_validate_description` -/
def validateDescription (py : SkillPython) (value : Option Value) : Except Failure String :=
  match value.bind Value.text? with
  | none => refuse "Skill description must be a string"
  | some text =>
      let clean := joinWords text
      if clean = "" ∨ maxSkillDescriptionChars < clean.length then
        refuse "Skill description must contain 1 to 320 characters"
      else if clean.length < 24 ∨ rstripMarks (py.casefold clean) ∈ genericDescriptions then
        refuse "Skill description must state specific selection guidance"
      else if (secretPattern py).search clean.toList then
        refuse "Skill description appears to contain a secret"
      else .ok clean

/-- The tools of `metadata.get("tools", ())`: the default is a tuple, which is no list. -/
def rawTools : Option Value → Option (List Value)
  | some (.scalar .null) => some []
  | some (.list items) => some items
  | _ => none

/-- `_validate_tools` -/
def validateTools (registered : Option (List String)) (value : Option Value) :
    Except Failure (List String) :=
  match rawTools value with
  | none => refuse "Skill tools must be a flat YAML list"
  | some raw =>
      if ¬ raw.all fun item => item.text?.isSome then
        refuse "Skill tools must contain only tool-name strings"
      else
        let clean := (raw.filterMap Value.text?).map pyStrip
        if clean.any fun item => item = "" || 128 < item.length then
          refuse "Skill tool names must contain 1 to 128 characters"
        else if ¬ clean.Nodup then refuse "Skill tools must be unique"
        else
          let missing := (sorted clean).filter fun tool => registered.any fun names => tool ∉ names
          if missing ≠ [] then
            .error (.format
              { message := "unknown Skill tools: " ++ ", ".intercalate missing
                code := "skill_dependency_unavailable" })
          else .ok (sorted clean)

/-! ## The body -/

/-- Where `str.splitlines` ends a line. -/
def isLineBreak (c : Char) : Bool :=
  let n := c.toNat
  (10 ≤ n && n ≤ 13) || (28 ≤ n && n ≤ 30) || n == 0x85 || n == 0x2028 || n == 0x2029

/-- `str.splitlines`, with the characters of the first line read so far. -/
def linesFrom (line : List Char) : List Char → List (List Char)
  | [] => if line = [] then [] else [line.reverse]
  | '\r' :: '\n' :: cs => line.reverse :: linesFrom [] cs
  | c :: cs => if isLineBreak c then line.reverse :: linesFrom [] cs else linesFrom (c :: line) cs

def splitlines (cs : List Char) : List (List Char) := linesFrom [] cs

/-- The second headings, each with the number of its line. -/
def secondHeadings (lines : List (List Char)) : List (Nat × String) :=
  lines.zipIdx.filterMap fun entry =>
    if secondHeading.fullmatch entry.1 then some (entry.2, pyStrip (.ofList (entry.1.drop 2)))
    else none

/-- What follows a heading, up to the next of its kind. -/
def sectionContent (lines : List (List Char)) (start : Nat) : List (List Char) :=
  (lines.drop start).takeWhile fun line => !("## ".toList.isPrefixOf line)

def sectionEmpty (lines : List (List Char)) (name : String) : Bool :=
  match (secondHeadings lines).find? fun entry => entry.2 = name with
  | none => true
  | some entry => !(sectionContent lines (entry.1 + 1)).any fun line =>
      pyStrip (.ofList line) ≠ "" && !("### ".toList.isPrefixOf line)

/-- `needle in text` -/
def containsText (needle text : List Char) : Bool := text.tails.any needle.isPrefixOf

section

variable (py : SkillPython)

/-- A denial stands in the 120 characters before a match. -/
def denied (clean : List Char) (start : Nat) : Bool :=
  let before := (clean.take start).drop (start - 120)
  let folded := (py.casefold (.ofList before)).toList
  ["do not", "never", "must not", "cannot", "can't"].any fun denial =>
    containsText denial.toList folded

/-- A directive is given that nothing denies. -/
def directs (pattern : Regex) (clean : List Char) : Bool :=
  (pattern.starts clean).any fun start => !denied py clean start

/-- `_validate_body` -/
def validateBody (body : String) : Except Failure String :=
  let clean := pyStrip body
  let cs := clean.toList
  let lines := splitlines cs
  let headings := secondHeadings lines
  if maxSkillBodyChars < clean.length then refuse "Skill body exceeds 8000 characters"
  else if maxSkillBodyLines < lines.length then refuse "Skill body exceeds 200 lines"
  else if cs.any fun c => c.toNat < 32 && c ≠ '\n' && c ≠ '\t' then
    refuse "Skill body contains control characters"
  else if (lines.filter firstHeading.fullmatch).length ≠ 1 then
    refuse "Skill body must contain exactly one H1 heading"
  else if headings.map Prod.snd ≠ requiredSkillSections then
    refuse ("Skill H2 sections must appear exactly once in canonical order: "
      ++ ", ".intercalate requiredSkillSections)
  else
    match requiredSkillSections.find? (sectionEmpty lines) with
    | some name => refuse ("Skill section is empty: " ++ name)
    | none =>
        if markdownLink.search cs || containsText "../".toList cs || containsText "~/".toList cs then
          refuse "Skill bodies cannot contain links or filesystem paths"
        else if (secretPattern py).search cs then refuse "Skill body appears to contain a secret"
        else if (rawServerCommand py).search cs || (rawScarpetEntrypoint py).search cs then
          refuse "Skill bodies cannot contain raw server commands"
        else if directs py (unsafeDirective py) cs || directs py (falseSuccessDirective py) cs then
          refuse "Skill body attempts to bypass governance or terminal truth"
        else .ok clean

end

/-! ## The document -/

structure ParsedSkill where
  name : String
  description : String
  tools : List String
  body : String
  source : String
  versionDigest : String
deriving DecidableEq

/-- The tools of the canonical text. -/
def cleanTools (tools : List String) : List String :=
  sorted ((tools.map pyStrip).filter (· ≠ "")).dedup

/-- `canonical_skill_markdown` -/
def canonicalSkillMarkdown (name description : String) (tools : List String) (body : String) :
    String :=
  let clean := cleanTools tools
  "\n".intercalate
    (["---", "name: " ++ name, "description: " ++ Responses.quoteText description]
      ++ (if clean = [] then [] else "tools:" :: clean.map ("  - " ++ ·))
      ++ ["---", "", pyStrip body, ""])

/-- `text.replace("\r\n", "\n").replace("\r", "\n")` -/
def newlines : List Char → List Char
  | [] => []
  | '\r' :: '\n' :: cs => '\n' :: newlines cs
  | c :: cs => (if c = '\r' then '\n' else c) :: newlines cs

def opening : List Char := ['-', '-', '-', '\n']

def closing : List Char := ['\n', '-', '-', '-', '\n']

/-- What comes before the first `mark` and what after it. -/
def splitAtMark (mark : List Char) : List Char → Option (List Char × List Char)
  | [] => if mark = [] then some ([], []) else none
  | c :: cs =>
      if mark.isPrefixOf (c :: cs) then some ([], (c :: cs).drop mark.length)
      else (splitAtMark mark cs).map fun split => (c :: split.1, split.2)

/-- `_split_frontmatter` -/
def splitFrontmatter (source : List Char) : Except Failure (List Char × String) :=
  if ¬ opening.isPrefixOf source then refuse "SKILL.md must start with YAML frontmatter"
  else
    match splitAtMark closing (source.drop opening.length) with
    | none => refuse "SKILL.md frontmatter is not closed"
    | some (frontmatter, rest) =>
        let body := pyStrip (.ofList rest)
        if body = "" then refuse "SKILL.md body must not be empty" else .ok (frontmatter, body)

/-- The text of a key. -/
def keyText : Scalar → String
  | .text value => value
  | _ => ""

/-- `metadata.get(key)` -/
def field (metadata : List (Scalar × Value)) (key : String) : Option Value :=
  (metadata.find? fun entry => entry.1 = .text key).map Prod.snd

section

variable (py : SkillPython) (yaml : Yaml) (registered : Option (List String))

/-- The checks on what was loaded. -/
def checkFields (metadata : List (Scalar × Value)) : Except Failure (List (Scalar × Value)) :=
  let keys := metadata.map Prod.fst
  if keys.any fun key => key ≠ .text (keyText key) then
    refuse "Skill frontmatter keys must be strings"
  else
    let unknown := sorted ((keys.map keyText).filter (· ∉ frontmatterFields))
    let missing := ["description", "name"].filter fun key => .text key ∉ keys
    if unknown ≠ [] then refuse ("unknown Skill frontmatter fields: " ++ ", ".intercalate unknown)
    else if missing ≠ [] then
      refuse ("missing Skill frontmatter fields: " ++ ", ".intercalate missing)
    else .ok metadata

/-- `_load_frontmatter` -/
def loadFrontmatter (frontmatter : List Char) : Except Failure (List (Scalar × Value)) :=
  match yaml.scan frontmatter with
  | .error problem => refuse ("invalid Skill frontmatter: " ++ problem)
  | .ok tokens =>
      if .reference ∈ tokens then refuse "YAML aliases, anchors, and custom tags are not allowed"
      else
        match yaml.compose frontmatter with
        | .error problem => refuse ("invalid Skill frontmatter: " ++ problem)
        | .ok none => refuse "Skill frontmatter must be a mapping"
        | .ok (some node) =>
            match construct py node with
            | .error (.yaml problem) => refuse ("invalid Skill frontmatter: " ++ problem)
            | .error (.other text) => .error (.other text)
            | .ok (.mapping metadata) => checkFields metadata
            | .ok _ => refuse "Skill frontmatter must be a mapping"

/-- `parse_skill_markdown` -/
def parseSkillMarkdown (source : String) : Except Failure ParsedSkill := do
  let (frontmatter, body) ← splitFrontmatter (newlines source.toList)
  let metadata ← loadFrontmatter py yaml frontmatter
  let name ← validateName (field metadata "name")
  let description ← validateDescription py (field metadata "description")
  let tools ← validateTools registered (field metadata "tools")
  let cleanBody ← validateBody py body
  let canonical := canonicalSkillMarkdown name description tools cleanBody
  .ok
    { name, description, tools, body := cleanBody, source := canonical
      versionDigest := "sha256:" ++ py.sha256 canonical }

/-- `build_skill_markdown` -/
def buildSkillMarkdown (name description : String) (tools : List String) (body : String) :
    Except Failure ParsedSkill :=
  parseSkillMarkdown py yaml registered (canonicalSkillMarkdown (pyStrip name) (joinWords description)
    (tools.map pyStrip) (pyStrip body))

end

end SkillFormat

end MineBot
