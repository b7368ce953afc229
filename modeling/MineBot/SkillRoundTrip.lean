import Mathlib
import MineBot.SkillText

/-!
# The round trip of a skill document

The canonical text of a document that was read is read again, and gives the same
document, where YAML reads each field as it was written: the name is a plain
scalar, the description is quoted as in JSON, and the tools are a list of plain
scalars. `Documented` is what is taken from YAML; `skill_round_trip` says when the
round trip succeeds.
-/

namespace MineBot

namespace SkillFormat

open Regex

/-! ## Reading YAML -/

/-- The first lines of a canonical frontmatter. -/
def header (name description : String) : List Char :=
  "name: ".toList ++ name.toList
    ++ '\n' :: ("description: ".toList ++ (Responses.quoteText description).toList)

theorem header_eq (name description : String) : header name description =
    "name: ".toList ++ name.toList
      ++ '\n' :: ("description: ".toList ++ (Responses.quoteText description).toList) := by
  delta header
  rfl

/-- The lines of the tools. -/
def toolBlock (tools : List String) : List Char :=
  "tools:".toList ++ tools.flatMap fun tool => "\n  - ".toList ++ tool.toList

theorem toolBlock_eq (tools : List String) : toolBlock tools =
    "tools:".toList ++ tools.flatMap fun tool => "\n  - ".toList ++ tool.toList := by
  delta toolBlock
  rfl

/-- A text without references is a mapping of these entries. -/
structure ReadsAs (yaml : Yaml) (text : List Char) (pairs : List (Node × Node)) : Prop where
  scanned : ∃ tokens, yaml.scan text = .ok tokens ∧ .reference ∉ tokens
  composed : yaml.compose text = .ok (some (.mapping pairs))

def headerPairs (yaml : Yaml) (name description : String) : List (Node × Node) :=
  [(.scalar (.text "name"), yaml.plain name.toList),
    (.scalar (.text "description"), .scalar (.text description))]

def isDigit : Regex := .char Char.isDigit

/-- What YAML 1.1 resolves as something else, of the scalars that may be a name:
`null`, truth values, integers and dates. -/
def notText : Regex :=
  oneOf (["null", "yes", "no", "true", "false", "on", "off"].map exactly ++ [
    .seq (exactly "0b") (plus (.char (· ∈ ['0', '1']))),
    .seq (lit '0') (plus (.char (· ∈ "01234567".toList))),
    lit '0',
    .seq (.char fun c => c.isDigit && c ≠ '0') (.many isDigit),
    .seq (exactly "0x") (plus (.char (· ∈ "0123456789abcdef".toList))),
    chain [times 4 isDigit, lit '-', times 2 isDigit, lit '-', times 2 isDigit]])

def resolvesAsText (name : String) : Bool := !notText.fullmatch name.toList

/-- The characters of a description that are written as they are can be read. -/
def Legible (description : String) : Prop :=
  ∀ c ∈ description.toList, 32 ≤ c.toNat → isPrintable c

def IsName (name : String) : Prop := skillNamePattern.fullmatch name.toList

/-- What YAML 1.1 says of the texts at hand. -/
structure Documented (yaml : Yaml) : Prop where
  /-- the reader refuses unprintable characters -/
  printable : ∀ text tokens, yaml.scan text = .ok tokens → ∀ c ∈ text, isPrintable c
  /-- a plain scalar is resolved -/
  text : ∀ name, IsName name → resolvesAsText name → yaml.plain name.toList = .scalar (.text name)
  resolved : ∀ name, IsName name → resolvesAsText name = false →
    ∀ value, yaml.plain name.toList ≠ .scalar (.text value)
  /-- a quoted scalar is decoded -/
  alone : ∀ name description, IsName name → joinWords description = description →
    Legible description → ReadsAs yaml (header name description) (headerPairs yaml name description)
  /-- the entries of a mapping are read one after the other -/
  entries : ∀ name description block, IsName name → joinWords description = description →
    Legible description → "tools:".toList <+: block → ∀ pairs,
      ReadsAs yaml (header name description ++ '\n' :: block) pairs ↔
        ∃ rest, pairs = headerPairs yaml name description ++ rest ∧ ReadsAs yaml block rest

/-! ## What was read -/

theorem bind_ok {α β : Type} {x : Except Failure α} {f : α → Except Failure β} {b : β}
    (h : (x >>= f) = .ok b) : ∃ a, x = .ok a ∧ f a = .ok b := by
  cases x with
  | error e => cases h
  | ok a => exact ⟨a, rfl, h⟩

theorem refuse_ne_ok {α : Type} {message : String} {a : α} : refuse message ≠ .ok a :=
  fun h => by cases h

section

variable {py : SkillPython} {registered : Option (List String)} {value : Option Value}

theorem validateName_ok {name : String} (h : validateName value = .ok name) :
    pyStrip name = name ∧ IsName name ∧ validateName (some (.scalar (.text name))) = .ok name := by
  unfold validateName at h
  split at h
  · exact absurd h refuse_ne_ok
  · next text _ =>
      simp only at h
      split at h
      · exact absurd h refuse_ne_ok
      · next hvalid =>
          obtain rfl := Except.ok.inj h
          have hstrip := pyStrip_pyStrip text
          rw [not_or, not_not] at hvalid
          refine ⟨hstrip, hvalid.2, ?_⟩
          simp only [validateName, Option.bind_some, Value.text?, hstrip]
          rw [if_neg (not_or.mpr ⟨hvalid.1, not_not.mpr hvalid.2⟩)]

theorem validateName_text {name name' : String}
    (h : validateName (some (.scalar (.text name))) = .ok name')
    (hstrip : pyStrip name = name) : name' = name := by
  simp only [validateName, Option.bind_some, Value.text?, hstrip] at h
  split at h
  · exact absurd h refuse_ne_ok
  · exact (Except.ok.inj h).symm

theorem validateDescription_ok {description : String}
    (h : validateDescription py value = .ok description) :
    joinWords description = description ∧
      validateDescription py (some (.scalar (.text description))) = .ok description := by
  unfold validateDescription at h
  split at h
  · exact absurd h refuse_ne_ok
  · next text _ =>
      simp only at h
      split at h
      · exact absurd h refuse_ne_ok
      · next hlen =>
          split at h
          · exact absurd h refuse_ne_ok
          · next hguidance =>
              split at h
              · exact absurd h refuse_ne_ok
              · next hsecret =>
                  obtain rfl := Except.ok.inj h
                  have hjoin := joinWords_joinWords text
                  refine ⟨hjoin, ?_⟩
                  simp only [validateDescription, Option.bind_some, Value.text?, hjoin]
                  rw [if_neg hlen, if_neg hguidance, if_neg hsecret]

theorem sorted_sorted {texts : List String} : sorted (sorted texts) = sorted texts :=
  (List.pairwise_insertionSort (· ≤ ·) texts).insertionSort_eq

theorem mem_sorted {texts : List String} {text : String} : text ∈ sorted texts ↔ text ∈ texts :=
  (List.perm_insertionSort (· ≤ ·) texts).mem_iff

theorem filterMap_texts (tools : List String) :
    (tools.map fun tool => Value.scalar (.text tool)).filterMap Value.text? = tools := by
  rw [List.filterMap_map]
  exact List.filterMap_some

/-- Tools that were accepted are clean and in order. -/
structure CleanTools (tools : List String) : Prop where
  stripped : ∀ tool ∈ tools, pyStrip tool = tool
  nonempty : ∀ tool ∈ tools, tool ≠ ""
  nodup : tools.Nodup
  ordered : sorted tools = tools

theorem validateTools_ok {tools : List String} (h : validateTools registered value = .ok tools) :
    CleanTools tools ∧ validateTools registered
      (some (.list (tools.map fun tool => .scalar (.text tool)))) = .ok tools := by
  unfold validateTools at h
  split at h
  · exact absurd h refuse_ne_ok
  · next raw _ =>
      simp only at h
      split at h
      · exact absurd h refuse_ne_ok
      · split at h
        · exact absurd h refuse_ne_ok
        · next hlen =>
            split at h
            · exact absurd h refuse_ne_ok
            · next hnodup =>
                split at h
                · cases h
                · next hmissing =>
                    obtain rfl := Except.ok.inj h
                    generalize hclean : (raw.filterMap Value.text?).map pyStrip = clean at *
                    have hstripped : ∀ tool ∈ sorted clean, pyStrip tool = tool := by
                      intro tool hmem
                      rw [mem_sorted, ← hclean] at hmem
                      obtain ⟨text, -, rfl⟩ := List.mem_map.mp hmem
                      exact pyStrip_pyStrip text
                    have hbounds : ∀ tool ∈ sorted clean, ¬ (tool = "" || 128 < tool.length) := by
                      intro tool hmem hbad
                      exact hlen (List.any_eq_true.mpr ⟨tool, mem_sorted.mp hmem, hbad⟩)
                    have hmap : (sorted clean).map pyStrip = sorted clean :=
                      (List.map_congr_left (g := id) hstripped).trans (List.map_id _)
                    have hnodup' : (sorted clean).Nodup :=
                      (List.perm_insertionSort (· ≤ ·) clean).nodup_iff.mpr (not_not.mp hnodup)
                    refine ⟨⟨hstripped, fun tool hmem heq => ?_, hnodup', sorted_sorted⟩, ?_⟩
                    · exact hbounds tool hmem (by rw [heq]; rfl)
                    · have hall : ((sorted clean).map fun tool => Value.scalar (.text tool)).all
                          (fun item => item.text?.isSome) = true := by
                        rw [List.all_map]
                        exact List.all_eq_true.mpr fun _ _ => rfl
                      have hany : ((sorted clean).any fun item => item = "" || 128 < item.length)
                          = false := by
                        rw [List.any_eq_false]
                        exact hbounds
                      simp only [validateTools, rawTools, filterMap_texts, hmap, sorted_sorted]
                      rw [if_neg (not_not.mpr hall), if_neg (by rw [hany]; exact Bool.false_ne_true),
                        if_neg (not_not.mpr hnodup'), if_neg hmissing]

theorem CleanTools.cleanTools {tools : List String} (h : CleanTools tools) :
    cleanTools tools = tools := by
  have hmap : tools.map pyStrip = tools :=
    (List.map_congr_left (g := id) h.stripped).trans (List.map_id _)
  have hfilter : tools.filter (· ≠ "") = tools :=
    List.filter_eq_self.mpr fun tool hmem => decide_eq_true (h.nonempty tool hmem)
  rw [SkillFormat.cleanTools, hmap, hfilter, h.nodup.dedup]
  exact h.ordered

/-- A body that was accepted is stripped, and has no carriage return. -/
theorem validateBody_ok {body clean : String} (h : validateBody py body = .ok clean) :
    clean = pyStrip body ∧ validateBody py clean = .ok clean ∧ '\r' ∉ clean.toList := by
  have hclean : clean = pyStrip body ∧
      ¬ (pyStrip body).toList.any fun c => c.toNat < 32 && c ≠ '\n' && c ≠ '\t' := by
    unfold validateBody at h
    simp only at h
    split at h
    · exact absurd h refuse_ne_ok
    · split at h
      · exact absurd h refuse_ne_ok
      · split at h
        · exact absurd h refuse_ne_ok
        · next hcontrol =>
            refine ⟨?_, hcontrol⟩
            split at h
            · exact absurd h refuse_ne_ok
            · split at h
              · exact absurd h refuse_ne_ok
              · split at h
                · exact absurd h refuse_ne_ok
                · split at h
                  · exact absurd h refuse_ne_ok
                  · split at h
                    · exact absurd h refuse_ne_ok
                    · split at h
                      · exact absurd h refuse_ne_ok
                      · split at h
                        · exact absurd h refuse_ne_ok
                        · exact (Except.ok.inj h).symm
  have hsame : validateBody py (pyStrip body) = validateBody py body := by
    unfold validateBody
    rw [pyStrip_pyStrip]
  refine ⟨hclean.1, ?_, fun hmem => hclean.2 ?_⟩
  · rw [hclean.1, hsame, h, hclean.1]
  · exact List.any_eq_true.mpr ⟨'\r', hclean.1 ▸ hmem, by decide⟩

/-- What holds of a document that was read. -/
structure Parsed (py : SkillPython) (registered : Option (List String)) (p : ParsedSkill) :
    Prop where
  nameStripped : pyStrip p.name = p.name
  isName : IsName p.name
  name : validateName (some (.scalar (.text p.name))) = .ok p.name
  joined : joinWords p.description = p.description
  description : validateDescription py (some (.scalar (.text p.description))) = .ok p.description
  cleanTools : CleanTools p.tools
  tools : validateTools registered
    (some (.list (p.tools.map fun tool => .scalar (.text tool)))) = .ok p.tools
  bodyStripped : pyStrip p.body = p.body
  bodyNonempty : p.body ≠ ""
  bodyReturn : '\r' ∉ p.body.toList
  body : validateBody py p.body = .ok p.body
  source : p.source = canonicalSkillMarkdown p.name p.description p.tools p.body
  versionDigest : p.versionDigest = "sha256:" ++ py.sha256 p.source

theorem splitFrontmatter_ok {source front : List Char} {body : String}
    (h : splitFrontmatter source = .ok (front, body)) : pyStrip body = body ∧ body ≠ "" := by
  unfold splitFrontmatter at h
  split at h
  · exact absurd h refuse_ne_ok
  · split at h
    · exact absurd h refuse_ne_ok
    · next rest _ =>
        simp only at h
        split at h
        · exact absurd h refuse_ne_ok
        · next hne =>
            obtain ⟨-, rfl⟩ := Prod.mk.inj (Except.ok.inj h)
            exact ⟨pyStrip_pyStrip _, hne⟩

theorem parsed_of_ok {yaml : Yaml} {source : String} {p : ParsedSkill}
    (h : parseSkillMarkdown py yaml registered source = .ok p) : Parsed py registered p := by
  obtain ⟨⟨front, body⟩, hsplit, h⟩ := bind_ok h
  obtain ⟨metadata, -, h⟩ := bind_ok h
  obtain ⟨name, hname, h⟩ := bind_ok h
  obtain ⟨description, hdescription, h⟩ := bind_ok h
  obtain ⟨tools, htools, h⟩ := bind_ok h
  obtain ⟨clean, hbody, h⟩ := bind_ok h
  obtain rfl := Except.ok.inj h
  obtain ⟨hstrip, hisName, hname'⟩ := validateName_ok hname
  obtain ⟨hjoin, hdescription'⟩ := validateDescription_ok hdescription
  obtain ⟨hclean, htools'⟩ := validateTools_ok htools
  obtain ⟨hsame, hbody', hreturn⟩ := validateBody_ok hbody
  obtain ⟨hstripped, hne⟩ := splitFrontmatter_ok hsplit
  obtain rfl : clean = body := hsame.trans hstripped
  exact
    { nameStripped := hstrip, isName := hisName, name := hname', joined := hjoin
      description := hdescription', cleanTools := hclean, tools := htools'
      bodyStripped := hstripped, bodyNonempty := hne, bodyReturn := hreturn, body := hbody'
      source := rfl, versionDigest := rfl }

end

/-! ## The canonical text -/

/-- The frontmatter of a canonical text. -/
def front (name description : String) (tools : List String) : List Char :=
  header name description ++ if tools = [] then [] else '\n' :: toolBlock tools

theorem intercalate_lines {α : Type} (f : α → List Char) (first next : List Char) (xs : List α)
    (rest : List (List Char)) :
    ['\n'].intercalate (first :: (xs.map f ++ next :: rest)) =
      first ++ (xs.flatMap fun x => '\n' :: f x) ++ '\n' :: ['\n'].intercalate (next :: rest) := by
  induction xs generalizing first with
  | nil => simp [List.intercalate_cons_cons]
  | cons x xs ih =>
      rw [List.map_cons, List.cons_append, List.intercalate_cons_cons, ih]
      simp

theorem toList_canonical {name description body : String} {tools : List String}
    (htools : CleanTools tools) (hbody : pyStrip body = body) :
    (canonicalSkillMarkdown name description tools body).toList =
      opening ++ (front name description tools ++ closing ++ '\n' :: body.toList ++ ['\n']) := by
  have hopening : opening = "---".toList ++ ['\n'] := rfl
  have hclosing : closing = '\n' :: "---".toList ++ ['\n'] := rfl
  have hempty : "".toList = [] := rfl
  have hlast : ['\n'].intercalate ["---".toList, [], body.toList, []] =
      "---".toList ++ '\n' :: '\n' :: body.toList ++ ['\n'] := by
    simp only [List.intercalate_cons_cons, List.intercalate_singleton, List.append_assoc,
      List.cons_append, List.nil_append, List.append_nil]
  rw [canonicalSkillMarkdown, htools.cleanTools, hbody, String.toList_intercalate]
  by_cases hnil : tools = []
  · subst hnil
    have hlines := intercalate_lines (fun line : List Char => line) "---".toList "---".toList
      ["name: ".toList ++ name.toList,
        "description: ".toList ++ (Responses.quoteText description).toList] [[], body.toList, []]
    rw [hlast] at hlines
    rw [if_pos rfl, front, if_pos rfl, header_eq, hopening, hclosing]
    simp only [List.append_nil, List.cons_append, List.nil_append, List.map_cons, List.map_nil,
      String.toList_append, hempty, List.flatMap_cons, List.flatMap_nil, List.append_assoc]
      at hlines ⊢
    exact hlines
  · have hlines := intercalate_lines (fun line : List Char => line) "---".toList "---".toList
      (("name: ".toList ++ name.toList) ::
        ("description: ".toList ++ (Responses.quoteText description).toList) ::
        "tools:".toList :: tools.map fun tool => "  - ".toList ++ tool.toList)
      [[], body.toList, []]
    have hblock : (tools.flatMap fun tool => '\n' :: ("  - ".toList ++ tool.toList)) =
        tools.flatMap fun tool => "\n  - ".toList ++ tool.toList := rfl
    rw [hlast] at hlines
    rw [if_neg hnil, front, if_neg hnil, header_eq, toolBlock_eq, hopening, hclosing, ← hblock]
    simp only [List.cons_append, List.nil_append, List.map_cons, List.map_nil, List.map_append,
      List.map_map, Function.comp_def, String.toList_append, hempty, List.flatMap_cons,
      List.flatMap_map, List.append_assoc] at hlines ⊢
    exact hlines

theorem mem_name {name : String} (h : IsName name) : ∀ c ∈ name.toList, isNameChar c := by
  have hsmall : ∀ c, isSmall c → isNameChar c := fun c hc => by rw [isNameChar, hc]; rfl
  have hhyphen : ∀ c : Char, decide (c = '-') = true → isNameChar c := fun c hc => by
    rw [of_decide_eq_true hc]
    rfl
  have hwithin : skillNamePattern.Within fun c => isNameChar c :=
    ⟨⟨hsmall, hsmall⟩, hhyphen, hsmall, hsmall⟩
  exact mem_of_fullmatch hwithin h

theorem not_mem_name {name : String} (h : IsName name) {d : Char} (hd : d = '\n' ∨ d = '\r') :
    d ∉ name.toList := by
  intro hmem
  have hname := mem_name h d hmem
  rcases hd with rfl | rfl <;> revert hname <;> decide

theorem not_mem_nameLine {name : String} (h : IsName name) {d : Char} (hd : d = '\n' ∨ d = '\r') :
    d ∉ "name: ".toList ++ name.toList := by
  rw [List.mem_append, not_or]
  refine ⟨?_, not_mem_name h hd⟩
  rcases hd with rfl | rfl <;> decide

theorem not_mem_descriptionLine (description : String) {d : Char} (hd : d = '\n' ∨ d = '\r') :
    d ∉ "description: ".toList ++ (Responses.quoteText description).toList := by
  rw [List.mem_append, not_or]
  refine ⟨?_, not_mem_quoteText hd⟩
  rcases hd with rfl | rfl <;> decide

theorem return_not_mem_header {name : String} (h : IsName name) (description : String) :
    '\r' ∉ header name description := by
  rw [header_eq, List.mem_append, List.mem_cons, not_or, not_or]
  exact ⟨not_mem_nameLine h (.inr rfl), by decide, not_mem_descriptionLine description (.inr rfl)⟩

theorem getLast?_ne {cs : List Char} {c : Char} (h : c ∉ cs) : cs.getLast? ≠ some c :=
  fun hlast => h (List.mem_of_getLast? hlast)

/-- A tool ends with no white space. -/
theorem getLast?_toolBlock {tools : List String} (h : CleanTools tools) (hne : tools ≠ []) :
    (toolBlock tools).getLast? ≠ some '\r' := by
  obtain ⟨init, tool, rfl⟩ := (List.eq_nil_or_concat' tools).resolve_left hne
  have hmem : tool ∈ init ++ [tool] := List.mem_append_right _ (List.mem_singleton_self tool)
  have hchars : tool.toList ≠ [] := fun hnil => h.nonempty tool hmem (String.toList_eq_nil_iff.mp hnil)
  have hlast := List.rdropWhile_eq_self_iff.mp (strip_of_stripped (h.stripped tool hmem)).2 hchars
  rw [toolBlock_eq, List.flatMap_append, List.flatMap_singleton, ← List.append_assoc,
    ← List.append_assoc, List.getLast?_append_of_ne_nil _ hchars, List.getLast?_eq_some_getLast hchars]
  intro heq
  rw [Option.some.inj heq] at hlast
  exact hlast (by decide)

/-- The frontmatter as it is read again. -/
def frontRead (name description : String) (tools : List String) : List Char :=
  header name description ++ if tools = [] then [] else '\n' :: newlines (toolBlock tools)

theorem newlines_front {name description : String} {tools : List String} (hname : IsName name)
    (htools : CleanTools tools) {rest : List Char} (hrest : '\r' ∉ rest) :
    newlines (front name description tools ++ rest) = frontRead name description tools ++ rest := by
  have hheader := return_not_mem_header hname description
  rw [front, frontRead, List.append_assoc, newlines_append (getLast?_ne hheader),
    newlines_of_not_mem hheader, List.append_assoc]
  by_cases hnil : tools = []
  · rw [if_pos hnil, if_pos hnil, List.nil_append, newlines_of_not_mem hrest]
  · have hlast : ('\n' :: toolBlock tools).getLast? ≠ some '\r' := by
      have hblock : toolBlock tools ≠ [] := by
        rw [toolBlock_eq]
        exact List.append_ne_nil_of_left_ne_nil (by decide) _
      rw [List.getLast?_cons_of_ne_nil hblock]
      exact getLast?_toolBlock htools hnil
    rw [if_neg hnil, if_neg hnil, newlines_append hlast, newlines_of_not_mem hrest]
    rfl

section

variable {py : SkillPython} {registered : Option (List String)} {p : ParsedSkill}

theorem newlines_source (h : Parsed py registered p) :
    newlines p.source.toList = opening ++ (frontRead p.name p.description p.tools ++
      (closing ++ '\n' :: p.body.toList ++ ['\n'])) := by
  have hrest : '\r' ∉ closing ++ '\n' :: p.body.toList ++ ['\n'] := by
    simp only [List.mem_append, List.mem_cons, not_or]
    exact ⟨⟨by decide, by decide, h.bodyReturn⟩, by decide⟩
  have hopening : '\r' ∉ opening := by decide
  rw [h.source, toList_canonical h.cleanTools h.bodyStripped, newlines_append (getLast?_ne hopening),
    newlines_of_not_mem hopening, ← newlines_front h.isName h.cleanTools hrest]
  simp only [List.append_assoc, List.cons_append]

/-! ## The closing mark of the frontmatter -/

/-- Lines that begin otherwise are no mark. -/
theorem splitAtMark_line {line rest : List Char} (h : '\n' ∉ line) :
    splitAtMark closing (line ++ rest) =
      (splitAtMark closing rest).map fun split => (line ++ split.1, split.2) := by
  induction line with
  | nil => exact Option.map_id'.symm
  | cons c line ih =>
      rw [List.mem_cons, not_or] at h
      have hstart : ¬ closing.isPrefixOf (c :: (line ++ rest)) = true := by
        simp [closing, List.isPrefixOf, h.1]
      rw [List.cons_append, splitAtMark, if_neg hstart, ih h.2, Option.map_map]
      rfl

theorem splitAtMark_newline {c : Char} {rest : List Char} (h : c ≠ '-') :
    splitAtMark closing ('\n' :: c :: rest) =
      (splitAtMark closing (c :: rest)).map fun split => ('\n' :: split.1, split.2) := by
  have hstart : ¬ closing.isPrefixOf ('\n' :: c :: rest) = true := by
    have hc : ('-' == c) = false := by simpa using fun heq : '-' = c => h heq.symm
    simp [closing, List.isPrefixOf, hc]
  rw [splitAtMark, if_neg hstart]

theorem splitAtMark_header {name : String} (h : IsName name) (description : String)
    (rest : List Char) :
    splitAtMark closing (header name description ++ rest) =
      (splitAtMark closing rest).map fun split => (header name description ++ split.1, split.2) := by
  have hd : "description: ".toList = 'd' :: "escription: ".toList := by decide
  have hline := not_mem_descriptionLine description (.inl rfl)
  rw [header_eq, List.append_assoc, splitAtMark_line (not_mem_nameLine h (.inl rfl)),
    List.cons_append, hd, List.cons_append, List.cons_append, splitAtMark_newline (by decide),
    ← List.cons_append, ← List.cons_append, ← hd, splitAtMark_line hline, Option.map_map,
    Option.map_map]
  simp only [Function.comp_def, List.append_assoc, List.cons_append]

theorem unbroken_header {name : String} (h : IsName name) (description : String) :
    Unbroken closing (header name description) := by
  have hclosing : splitAtMark closing closing = some ([], []) := by decide
  rw [Unbroken, splitAtMark_header h, hclosing, Option.map_some, List.append_nil]

theorem unbroken_block {name : String} (h : IsName name) (description : String) {c : Char}
    {block : List Char} (hc : c ≠ '-') :
    Unbroken closing (header name description ++ '\n' :: c :: block) ↔
      Unbroken closing (c :: block) := by
  rw [Unbroken, Unbroken, List.append_assoc, splitAtMark_header h, List.cons_append,
    List.cons_append, splitAtMark_newline hc, Option.map_map, ← List.cons_append]
  constructor
  · intro heq
    obtain ⟨⟨before, after⟩, hsplit, heq⟩ := Option.map_eq_some_iff.mp heq
    obtain ⟨hbefore, rfl⟩ := Prod.mk.inj heq
    have hblock : before = c :: block := (List.cons.inj (List.append_cancel_left hbefore)).2
    rw [hsplit, hblock]
  · intro heq
    rw [heq]
    rfl

/-- When the mark is found early, more than white space is left in front of the body. -/
theorem not_split_early {front before after body : List Char}
    (hsplit : front ++ (closing ++ '\n' :: body ++ ['\n']) = before ++ closing ++ after)
    (hlt : before.length < front.length) :
    (body.filter fun c => !isPySpace c).length < (after.filter fun c => !isPySpace c).length := by
  rw [List.append_assoc before] at hsplit
  rcases List.append_eq_append_iff.mp hsplit with ⟨mid, hbefore, -⟩ | ⟨mid, rfl, hmid⟩
  · rw [hbefore, List.length_append] at hlt
    omega
  · rcases mid with _ | ⟨c, _ | ⟨d, mid⟩⟩
    · rw [List.append_nil] at hlt
      omega
    · -- the mark would have to begin twice
      cases hmid
    · have htail : closing ++ after = (c :: d :: mid ++ ['\n', '-', '-']) ++
          ('-' :: '\n' :: '\n' :: body ++ ['\n']) := by
        rw [hmid]
        simp [closing]
      rcases List.append_eq_append_iff.mp htail with ⟨xs, -, hafter⟩ | ⟨xs, hclosing, -⟩
      · rw [hafter, List.filter_append, List.length_append]
        have hhyphen : (!isPySpace '-') = true := by decide
        have hnewline : (!isPySpace '\n') = false := by decide
        simp only [List.cons_append, List.filter_cons, hhyphen, hnewline, if_true,
          Bool.false_eq_true, if_false, List.filter_append, List.length_append, List.length_cons]
        omega
      · have hlen := congrArg List.length hclosing
        simp only [closing, List.length_append, List.length_cons, List.length_nil] at hlen
        have hmid' : mid = [] := List.length_eq_zero_iff.mp (by omega)
        rw [hmid'] at hclosing
        simp [closing] at hclosing

/-! ## The entries of the frontmatter -/

theorem constructPairs_ok {seen : List (Scalar × Value)} {rest : List (Node × Node)}
    {metadata : List (Scalar × Value)} :
    constructPairs py seen rest = .ok metadata ↔ ∃ entries, constructPairs py [] rest = .ok entries ∧
      metadata = seen ++ entries ∧ ∀ key ∈ entries.map Prod.fst, key ∉ seen.map Prod.fst := by
  induction rest generalizing seen metadata with
  | nil =>
      simp only [constructPairs, Except.ok.injEq]
      constructor
      · rintro rfl
        exact ⟨[], rfl, (List.append_nil _).symm, fun key hmem => by cases hmem⟩
      · rintro ⟨entries, rfl, rfl, -⟩
        exact (List.append_nil _).symm
  | cons pair rest ih =>
      obtain ⟨keyNode, valueNode⟩ := pair
      simp only [constructPairs]
      cases hkey : construct py keyNode with
      | error failure =>
          simp only
          exact ⟨fun h => (by cases h), fun ⟨_, h, _⟩ => (by cases h)⟩
      | ok key =>
          cases key with
          | list items => exact ⟨fun h => (by cases h), fun ⟨_, h, _⟩ => (by cases h)⟩
          | mapping pairs => exact ⟨fun h => (by cases h), fun ⟨_, h, _⟩ => (by cases h)⟩
          | scalar key =>
              simp only
              by_cases hmerge : key = .text "<<"
              · rw [if_pos hmerge, if_pos hmerge]
                exact ⟨fun h => (by cases h), fun ⟨_, h, _⟩ => (by cases h)⟩
              · have hnone : key ∉ ([] : List (Scalar × Value)).map Prod.fst := List.not_mem_nil
                rw [if_neg hmerge, if_neg hmerge, if_neg hnone]
                cases hvalue : construct py valueNode with
                | error failure =>
                    simp only
                    refine ⟨fun h => ?_, fun ⟨_, h, _⟩ => (by cases h)⟩
                    split at h <;> cases h
                | ok value =>
                    simp only [List.nil_append]
                    constructor
                    · intro h
                      split at h
                      · cases h
                      · next hnew =>
                          obtain ⟨entries, hentries, rfl, hfresh⟩ := ih.mp h
                          refine ⟨(key, value) :: entries, ih.mpr ⟨entries, hentries, rfl, ?_⟩,
                            List.append_assoc _ _ _, ?_⟩
                          · intro key' hmem
                            have hnone := hfresh key' hmem
                            rw [List.map_append, List.mem_append, not_or] at hnone
                            exact hnone.2
                          · intro key' hmem
                            rcases List.mem_cons.mp hmem with rfl | hmem
                            · exact hnew
                            · have hnone := hfresh key' hmem
                              rw [List.map_append, List.mem_append, not_or] at hnone
                              exact hnone.1
                    · rintro ⟨entries, hentries, rfl, hfresh⟩
                      obtain ⟨entries', hentries', rfl, hfresh'⟩ := ih.mp hentries
                      rw [if_neg (hfresh key List.mem_cons_self)]
                      refine ih.mpr ⟨entries', hentries', (List.append_assoc _ _ _).symm, ?_⟩
                      intro key' hmem
                      rw [List.map_append, List.mem_append, not_or]
                      exact ⟨hfresh key' (List.mem_cons_of_mem _ hmem), hfresh' key' hmem⟩

theorem nodup_constructPairs {rest : List (Node × Node)} {seen metadata : List (Scalar × Value)}
    (h : constructPairs py seen rest = .ok metadata) (hseen : (seen.map Prod.fst).Nodup) :
    (metadata.map Prod.fst).Nodup := by
  induction rest generalizing seen with
  | nil =>
      obtain rfl := Except.ok.inj h
      exact hseen
  | cons pair rest ih =>
      obtain ⟨keyNode, valueNode⟩ := pair
      unfold constructPairs at h
      split at h
      · cases h
      · next key _ =>
          split at h
          · cases h
          · split at h
            · cases h
            · next hnew =>
                split at h
                · cases h
                · refine ih h ?_
                  rw [List.map_append]
                  exact List.nodup_append'.mpr ⟨hseen, List.nodup_singleton _,
                    List.disjoint_singleton.mpr hnew⟩
      · cases h

/-- The fields that a frontmatter may have, and must have. -/
structure Fields (metadata : List (Scalar × Value)) : Prop where
  known : ∀ key ∈ metadata.map Prod.fst, ∃ field ∈ frontmatterFields, key = .text field
  name : .text "name" ∈ metadata.map Prod.fst
  description : .text "description" ∈ metadata.map Prod.fst

theorem checkFields_ok {metadata metadata' : List (Scalar × Value)} :
    checkFields metadata = .ok metadata' ↔ metadata' = metadata ∧ Fields metadata := by
  simp only [checkFields]
  constructor
  · intro h
    split at h
    · exact absurd h refuse_ne_ok
    · next htext =>
        split at h
        · exact absurd h refuse_ne_ok
        · next hunknown =>
            split at h
            · exact absurd h refuse_ne_ok
            · next hmissing =>
                rw [not_not, List.filter_eq_nil_iff] at hmissing
                have hfilter : ((metadata.map Prod.fst).map keyText).filter
                    (· ∉ frontmatterFields) = [] := by
                  have hperm := List.perm_insertionSort (· ≤ ·)
                    (((metadata.map Prod.fst).map keyText).filter (· ∉ frontmatterFields))
                  rw [not_not] at hunknown
                  rw [← sorted, hunknown] at hperm
                  exact hperm.nil_eq.symm
                refine ⟨(Except.ok.inj h).symm, fun key hmem => ?_, ?_, ?_⟩
                · refine ⟨keyText key, ?_, ?_⟩
                  · by_contra hno
                    have := List.filter_eq_nil_iff.mp hfilter (keyText key)
                      (List.mem_map_of_mem hmem)
                    exact this (decide_eq_true hno)
                  · by_contra hne
                    exact htext (List.any_eq_true.mpr ⟨key, hmem, decide_eq_true hne⟩)
                · simpa using hmissing "name" (by simp)
                · simpa using hmissing "description" (by simp)
  · rintro ⟨heq, hfields⟩
    rw [heq]
    have htext : ¬ ((metadata.map Prod.fst).any fun key => key ≠ .text (keyText key)) = true := by
      intro hany
      obtain ⟨key, hmem, hne⟩ := List.any_eq_true.mp hany
      obtain ⟨field, -, rfl⟩ := hfields.known key hmem
      exact of_decide_eq_true hne rfl
    have hfilter : ((metadata.map Prod.fst).map keyText).filter (· ∉ frontmatterFields) = [] := by
      refine List.filter_eq_nil_iff.mpr fun text hmem => ?_
      obtain ⟨key, hkey, rfl⟩ := List.mem_map.mp hmem
      obtain ⟨field, hfield, rfl⟩ := hfields.known key hkey
      exact fun hno => of_decide_eq_true hno hfield
    have hmissing : ["description", "name"].filter (fun key => .text key ∉ metadata.map Prod.fst)
        = [] := by
      refine List.filter_eq_nil_iff.mpr fun key hmem => ?_
      rcases List.mem_pair.mp hmem with rfl | rfl
      · simpa using hfields.description
      · simpa using hfields.name
    have hsorted : sorted [] = [] := rfl
    rw [if_neg htext, hfilter, hsorted, if_neg (not_not.mpr rfl), hmissing, if_neg (not_not.mpr rfl)]

theorem load_ok {yaml : Yaml} {text : List Char} {metadata : List (Scalar × Value)} :
    loadFrontmatter py yaml text = .ok metadata ↔ ∃ pairs, ReadsAs yaml text pairs ∧
      constructPairs py [] pairs = .ok metadata ∧ Fields metadata := by
  unfold loadFrontmatter
  constructor
  · intro h
    split at h
    · exact absurd h refuse_ne_ok
    · next tokens hscan =>
        split at h
        · exact absurd h refuse_ne_ok
        · next hreference =>
            split at h
            · exact absurd h refuse_ne_ok
            · exact absurd h refuse_ne_ok
            · next node hcompose =>
                split at h
                · exact absurd h refuse_ne_ok
                · cases h
                · next metadata' hconstruct =>
                    obtain ⟨rfl, hfields⟩ := checkFields_ok.mp h
                    cases node with
                    | mapping pairs =>
                        rw [construct] at hconstruct
                        cases hpairs : constructPairs py [] pairs with
                        | error failure =>
                            rw [hpairs] at hconstruct
                            cases hconstruct
                        | ok entries =>
                            rw [hpairs] at hconstruct
                            obtain rfl := Value.mapping.inj (Except.ok.inj hconstruct)
                            exact ⟨pairs, ⟨⟨tokens, hscan, hreference⟩, hcompose⟩, hpairs, hfields⟩
                    | scalar value =>
                        rw [construct] at hconstruct
                        cases Except.ok.inj hconstruct
                    | broken failure =>
                        rw [construct] at hconstruct
                        cases hconstruct
                    | sequence items =>
                        rw [construct] at hconstruct
                        cases hitems : constructItems py items with
                        | error failure =>
                            rw [hitems] at hconstruct
                            cases hconstruct
                        | ok values =>
                            rw [hitems] at hconstruct
                            cases Except.ok.inj hconstruct
                · exact absurd h refuse_ne_ok
  · rintro ⟨pairs, ⟨⟨tokens, hscan, hreference⟩, hcompose⟩, hpairs, hfields⟩
    have hconstruct : construct py (.mapping pairs) = .ok (.mapping metadata) := by
      rw [construct, hpairs]
      rfl
    simp only [hscan, hcompose, hconstruct]
    rw [if_neg hreference]
    exact checkFields_ok.mpr ⟨rfl, hfields⟩

/-! ## Reading a canonical text -/

/-- The lines of the tools, read by themselves, are the tools. -/
structure ReadsBack (py : SkillPython) (yaml : Yaml) (registered : Option (List String))
    (tools : List String) : Prop where
  unbroken : Unbroken closing (newlines (toolBlock tools))
  entry : ∃ pairs value, ReadsAs yaml (newlines (toolBlock tools)) pairs ∧
    constructPairs py [] pairs = .ok [(.text "tools", value)] ∧
    validateTools registered (some value) = .ok tools

/-- A document whose canonical text is read again. -/
structure Readable (py : SkillPython) (yaml : Yaml) (registered : Option (List String))
    (p : ParsedSkill) : Prop where
  name : resolvesAsText p.name
  description : Legible p.description
  tools : p.tools ≠ []
  block : ReadsBack py yaml registered p.tools

variable {yaml : Yaml}

/-- What the header gives comes before the entries of the rest. -/
theorem constructPairs_header {name description : String} {rest : List (Node × Node)} :
    constructPairs py [] (headerPairs yaml name description ++ rest) =
      match construct py (yaml.plain name.toList) with
      | .error failure => .error failure
      | .ok value => constructPairs py
          [(.text "name", value), (.text "description", .scalar (.text description))] rest := by
  have hname : ¬ Scalar.text "name" = .text "<<" := by decide
  have hdescription : ¬ Scalar.text "description" = .text "<<" := by decide
  have hnone : Scalar.text "name" ∉ ([] : List (Scalar × Value)).map Prod.fst := List.not_mem_nil
  have hnew : ∀ value : Value, Scalar.text "description" ∉
      ([] ++ [(Scalar.text "name", value)]).map Prod.fst := fun value => by simp
  rw [headerPairs, List.cons_append, constructPairs, construct]
  simp only
  rw [if_neg hname, if_neg hnone]
  cases construct py (yaml.plain name.toList) with
  | error failure => rfl
  | ok value =>
      simp only
      rw [List.cons_append, constructPairs, construct]
      simp only
      rw [if_neg hdescription, if_neg (hnew value)]
      rfl

theorem head_toolBlock (tools : List String) :
    ∃ block, newlines (toolBlock tools) = 't' :: block ∧
      "tools:".toList <+: newlines (toolBlock tools) := by
  have hstart : '\r' ∉ "tools:".toList := by decide
  have hblock : newlines (toolBlock tools) = "tools:".toList ++
      newlines (tools.flatMap fun tool => "\n  - ".toList ++ tool.toList) := by
    rw [toolBlock_eq, newlines_append (getLast?_ne hstart), newlines_of_not_mem hstart]
  have hhead : "tools:".toList = 't' :: "ools:".toList := by decide
  refine ⟨"ools:".toList ++ newlines (tools.flatMap fun tool => "\n  - ".toList ++ tool.toList),
    ?_, hblock ▸ ⟨_, rfl⟩⟩
  rw [hblock, hhead]
  rfl

/-- The frontmatter of a canonical text gives back its document. -/
structure FrontReads (py : SkillPython) (yaml : Yaml) (registered : Option (List String))
    (p : ParsedSkill) : Prop where
  unbroken : Unbroken closing (frontRead p.name p.description p.tools)
  loads : ∃ metadata,
    loadFrontmatter py yaml (frontRead p.name p.description p.tools) = .ok metadata ∧
    validateName (field metadata "name") = .ok p.name ∧
    validateDescription py (field metadata "description") = .ok p.description ∧
    validateTools registered (field metadata "tools") = .ok p.tools

theorem splitFrontmatter_opening (text : List Char) :
    splitFrontmatter (opening ++ text) =
      match splitAtMark closing text with
      | none => refuse "SKILL.md frontmatter is not closed"
      | some (front, rest) =>
          if pyStrip (.ofList rest) = "" then refuse "SKILL.md body must not be empty"
          else .ok (front, pyStrip (.ofList rest)) := by
  have hstart : opening.isPrefixOf (opening ++ text) = true :=
    List.isPrefixOf_iff_prefix.mpr ⟨text, rfl⟩
  rewrite [splitFrontmatter, if_neg (not_not.mpr hstart), List.drop_left]
  rfl

theorem splitFrontmatter_text {front : List Char} {body : String} (hstripped : pyStrip body = body)
    (hne : body ≠ "") (hunbroken : Unbroken closing front) :
    splitFrontmatter (opening ++ (front ++ (closing ++ '\n' :: body.toList ++ ['\n']))) =
      .ok (front, body) := by
  have hclosing : closing ≠ [] := by decide
  have hspace : ∀ c ∈ ['\n'], isPySpace c := fun c hc => by
    rw [List.mem_singleton.mp hc]
    rfl
  have hbody := @pyStrip_pad ['\n'] ['\n'] body hstripped hne hspace hspace
  rw [List.singleton_append] at hbody
  have hsplit := split_of_unbroken hunbroken hclosing ('\n' :: body.toList ++ ['\n'])
  rw [List.append_assoc] at hsplit
  rw [splitFrontmatter_opening, List.append_assoc closing, hsplit]
  simp only
  rw [hbody, if_neg hne]

theorem split_source (h : Parsed py registered p)
    (hunbroken : Unbroken closing (frontRead p.name p.description p.tools)) :
    splitFrontmatter (newlines p.source.toList) =
      .ok (frontRead p.name p.description p.tools, p.body) := by
  rw [newlines_source h, splitFrontmatter_text h.bodyStripped h.bodyNonempty hunbroken]

/-- A canonical text that is split early has another body. -/
theorem unbroken_of_split (h : Parsed py registered p) {front : List Char}
    (hsplit : splitFrontmatter (newlines p.source.toList) = .ok (front, p.body)) :
    Unbroken closing (frontRead p.name p.description p.tools) := by
  by_contra hbroken
  obtain ⟨before, after, heq, hlt⟩ := early_of_broken hbroken (by decide)
    ('\n' :: p.body.toList ++ ['\n'])
  rw [List.append_assoc] at heq
  rw [newlines_source h, splitFrontmatter_opening, List.append_assoc closing, heq] at hsplit
  simp only at hsplit
  split at hsplit
  · exact absurd hsplit refuse_ne_ok
  · obtain ⟨-, hbody⟩ := Prod.mk.inj (Except.ok.inj hsplit)
    have hmore := not_split_early (by rw [List.append_assoc]; exact splitAtMark_eq heq) hlt
    have hsame := filter_pyStrip (.ofList after)
    rw [hbody, String.toList_ofList] at hsame
    rw [hsame] at hmore
    exact Nat.lt_irrefl _ hmore

theorem parse_of_fields {source name description body clean : String} {front : List Char}
    {metadata : List (Scalar × Value)} {tools : List String}
    (hsplit : splitFrontmatter (newlines source.toList) = .ok (front, body))
    (hload : loadFrontmatter py yaml front = .ok metadata)
    (hname : validateName (field metadata "name") = .ok name)
    (hdescription : validateDescription py (field metadata "description") = .ok description)
    (htools : validateTools registered (field metadata "tools") = .ok tools)
    (hbody : validateBody py body = .ok clean) :
    parseSkillMarkdown py yaml registered source = .ok
      { name, description, tools, body := clean
        source := canonicalSkillMarkdown name description tools clean
        versionDigest := "sha256:" ++ py.sha256
          (canonicalSkillMarkdown name description tools clean) } := by
  rw [parseSkillMarkdown, hsplit]
  simp only [bind, Except.bind, hload, hname, hdescription, htools, hbody]

theorem parse_source (h : Parsed py registered p) :
    parseSkillMarkdown py yaml registered p.source = .ok p ↔ FrontReads py yaml registered p := by
  constructor
  · intro hparse
    obtain ⟨⟨front, body⟩, hsplit, hrest⟩ := bind_ok hparse
    obtain ⟨metadata, hload, hrest⟩ := bind_ok hrest
    obtain ⟨name, hname, hrest⟩ := bind_ok hrest
    obtain ⟨description, hdescription, hrest⟩ := bind_ok hrest
    obtain ⟨tools, htools, hrest⟩ := bind_ok hrest
    obtain ⟨clean, hbody, hrest⟩ := bind_ok hrest
    have hfields := Except.ok.inj hrest
    obtain rfl : clean = p.body := congrArg ParsedSkill.body hfields
    obtain rfl : name = p.name := congrArg ParsedSkill.name hfields
    obtain rfl : description = p.description := congrArg ParsedSkill.description hfields
    obtain rfl : tools = p.tools := congrArg ParsedSkill.tools hfields
    obtain rfl : body = p.body := by
      rw [(validateBody_ok hbody).1]
      exact (splitFrontmatter_ok hsplit).1.symm
    have hunbroken := unbroken_of_split h hsplit
    rw [split_source h hunbroken] at hsplit
    obtain ⟨rfl, -⟩ := Prod.mk.inj (Except.ok.inj hsplit)
    exact ⟨hunbroken, metadata, hload, hname, hdescription, htools⟩
  · rintro ⟨hunbroken, metadata, hload, hname, hdescription, htools⟩
    have hresult : p = { p with
        source := canonicalSkillMarkdown p.name p.description p.tools p.body
        versionDigest := "sha256:" ++ py.sha256
          (canonicalSkillMarkdown p.name p.description p.tools p.body) } := by
      rw [← h.source, ← h.versionDigest]
    rw [parse_of_fields (split_source h hunbroken) hload hname hdescription htools h.body,
      ← hresult]

theorem field_cons (key : Scalar) (value : Value) (metadata : List (Scalar × Value))
    (name : String) : field ((key, value) :: metadata) name =
      if key = .text name then some value else field metadata name := by
  unfold field
  rw [List.find?_cons]
  by_cases hkey : key = .text name <;> simp [hkey]

/-- Only a scalar is constructed as a text. -/
theorem scalar_of_construct {node : Node} {text : String}
    (h : construct py node = .ok (.scalar (.text text))) : node = .scalar (.text text) := by
  cases node with
  | scalar value =>
      rw [construct] at h
      rw [Value.scalar.inj (Except.ok.inj h)]
  | broken failure =>
      rw [construct] at h
      cases h
  | sequence items =>
      rw [construct] at h
      cases hitems : constructItems py items with
      | error failure =>
          rw [hitems] at h
          cases h
      | ok values =>
          rw [hitems] at h
          cases Except.ok.inj h
  | mapping pairs =>
      rw [construct] at h
      cases hpairs : constructPairs py [] pairs with
      | error failure =>
          rw [hpairs] at h
          cases h
      | ok entries =>
          rw [hpairs] at h
          cases Except.ok.inj h

theorem text_of_validateName {value : Value} {name : String}
    (h : validateName (some value) = .ok name) : ∃ text, value = .scalar (.text text) := by
  unfold validateName at h
  split at h
  · exact absurd h refuse_ne_ok
  · next text htext =>
      refine ⟨text, ?_⟩
      cases value with
      | scalar value =>
          cases value with
          | text text' =>
              rw [Option.bind_some] at htext
              rw [Option.some.inj htext]
          | null => cases htext
          | other _ => cases htext
      | list items => cases htext
      | mapping pairs => cases htext

theorem validateTools_none {tools : List String} : validateTools registered none ≠ .ok tools :=
  refuse_ne_ok

/-- What may follow the name and the description is the tools. -/
theorem tools_of_fields {header entries : List (Scalar × Value)}
    (hheader : header.map Prod.fst = [.text "name", .text "description"])
    (hfields : Fields (header ++ entries)) (hnodup : ((header ++ entries).map Prod.fst).Nodup) :
    entries = [] ∨ ∃ value, entries = [(.text "tools", value)] := by
  rw [List.map_append, hheader] at hnodup
  have hkey : ∀ entry ∈ entries, entry.1 = .text "tools" := by
    intro entry hmem
    have hentry : entry.1 ∈ entries.map Prod.fst := List.mem_map_of_mem hmem
    obtain ⟨field, hfield, hkey⟩ := hfields.known entry.1 (by
      rw [List.map_append]
      exact List.mem_append_right _ hentry)
    have hapart := (List.nodup_append'.mp hnodup).2.2
    rcases List.mem_cons.mp hfield with rfl | hfield
    · exact absurd (hkey ▸ hentry) (hapart List.mem_cons_self)
    · rcases List.mem_pair.mp hfield with rfl | rfl
      · exact absurd (hkey ▸ hentry) (hapart (List.mem_cons_of_mem _ List.mem_cons_self))
      · exact hkey
  cases entries with
  | nil => exact .inl rfl
  | cons entry rest =>
      right
      have hfirst := hkey entry List.mem_cons_self
      cases rest with
      | nil => exact ⟨entry.2, by rw [← hfirst]⟩
      | cons next rest =>
          have hnext := hkey next (List.mem_cons_of_mem _ List.mem_cons_self)
          have hentries := (List.nodup_append'.mp hnodup).2.1
          rw [List.map_cons, List.map_cons, hfirst, hnext, List.nodup_cons] at hentries
          exact absurd List.mem_cons_self hentries.1

theorem legible_of_reads (hyaml : Documented yaml) {name description : String} {rest : List Char}
    {pairs : List (Node × Node)} (h : ReadsAs yaml (header name description ++ rest) pairs) :
    Legible description := by
  intro c hmem hc
  by_contra hprint
  obtain ⟨tokens, hscan, -⟩ := h.scanned
  have hquote := mem_quoteText hmem hc (by simpa using hprint)
  refine hprint (hyaml.printable _ _ hscan c (List.mem_append_left _ ?_))
  rw [header_eq]
  exact List.mem_append_right _ (List.mem_cons_of_mem _ (List.mem_append_right _ hquote))

theorem frontReads_iff (hyaml : Documented yaml) (h : Parsed py registered p) :
    FrontReads py yaml registered p ↔ Readable py yaml registered p := by
  obtain ⟨block, hhead, hstart⟩ := head_toolBlock p.tools
  constructor
  · rintro ⟨hunbroken, metadata, hload, hname, hdescription, htools⟩
    obtain ⟨pairs, hreads, hconstruct, hfields⟩ := load_ok.mp hload
    have hlegible := legible_of_reads hyaml hreads
    have hnodup := nodup_constructPairs hconstruct List.nodup_nil
    by_cases hnil : p.tools = []
    · exfalso
      rw [frontRead, if_pos hnil, List.append_nil] at hreads
      have halone := hyaml.alone p.name p.description h.isName h.joined hlegible
      have hpairs : pairs = headerPairs yaml p.name p.description ++ [] := by
        rw [List.append_nil]
        exact Node.mapping.inj (Option.some.inj
          (Except.ok.inj (hreads.composed.symm.trans halone.composed)))
      rw [hpairs, constructPairs_header] at hconstruct
      split at hconstruct
      · cases hconstruct
      · next value _ =>
          obtain rfl := Except.ok.inj hconstruct
          rw [field_cons, if_neg (by decide), field_cons, if_neg (by decide)] at htools
          exact validateTools_none htools
    · rw [frontRead, if_neg hnil] at hreads hunbroken
      obtain ⟨rest, rfl, hblock⟩ :=
        (hyaml.entries _ _ _ h.isName h.joined hlegible hstart _).mp hreads
      rw [constructPairs_header] at hconstruct
      split at hconstruct
      · cases hconstruct
      · next value hvalue =>
          obtain ⟨entries, hentries, rfl, hfresh⟩ := constructPairs_ok.mp hconstruct
          rw [List.cons_append, field_cons, if_pos rfl] at hname
          obtain ⟨text, rfl⟩ := text_of_validateName hname
          have hplain := scalar_of_construct hvalue
          refine ⟨?_, hlegible, hnil, ?_, ?_⟩
          · by_contra hresolves
            exact hyaml.resolved p.name h.isName (by simpa using hresolves) text hplain
          · rw [hhead] at hunbroken ⊢
            exact (unbroken_block h.isName p.description (by decide)).mp hunbroken
          · rw [List.cons_append, field_cons, if_neg (by decide), List.cons_append, field_cons,
              if_neg (by decide), List.nil_append] at htools
            rcases tools_of_fields rfl hfields hnodup with rfl | ⟨value, rfl⟩
            · exact absurd htools validateTools_none
            · rw [field_cons, if_pos rfl] at htools
              exact ⟨rest, value, hblock, hentries, htools⟩
  · rintro ⟨hname, hlegible, hnil, hunbroken, pairs, value, hreads, hentries, htools⟩
    have hplain := hyaml.text p.name h.isName hname
    have hall := (hyaml.entries p.name p.description _ h.isName h.joined hlegible hstart _).mpr
      ⟨pairs, rfl, hreads⟩
    have hvalue : construct py (yaml.plain p.name.toList) = .ok (.scalar (.text p.name)) := by
      rw [hplain, construct]
    have hconstruct : constructPairs py [] (headerPairs yaml p.name p.description ++ pairs) =
        .ok [(.text "name", .scalar (.text p.name)),
          (.text "description", .scalar (.text p.description)), (.text "tools", value)] := by
      rw [constructPairs_header, hvalue]
      refine constructPairs_ok.mpr ⟨[(.text "tools", value)], hentries, rfl, fun key hmem => ?_⟩
      rw [List.mem_singleton.mp hmem]
      simp
    have hfront : frontRead p.name p.description p.tools =
        header p.name p.description ++ '\n' :: newlines (toolBlock p.tools) := by
      rw [frontRead, if_neg hnil]
    have hfields : Fields [(.text "name", .scalar (.text p.name)),
        (.text "description", .scalar (.text p.description)), (.text "tools", value)] := by
      refine ⟨fun key hmem => ?_, by simp, by simp⟩
      simp only [List.map_cons, List.map_nil, List.mem_cons, List.not_mem_nil, or_false] at hmem
      rcases hmem with rfl | rfl | rfl
      · exact ⟨"name", by decide, rfl⟩
      · exact ⟨"description", by decide, rfl⟩
      · exact ⟨"tools", by decide, rfl⟩
    refine ⟨?_, _, load_ok.mpr ⟨_, hfront ▸ hall, hconstruct, hfields⟩, h.name, h.description, htools⟩
    rw [hhead] at hunbroken hfront
    rw [hfront]
    exact (unbroken_block h.isName p.description (by decide)).mpr hunbroken

end

/-- **The round trip of a skill document**: its canonical text, and its fields, give
it back where the canonical text is readable. -/
theorem skill_round_trip (py : SkillPython) (yaml : Yaml) (hyaml : Documented yaml)
    (registered : Option (List String)) (source : String) (p : ParsedSkill)
    (h : parseSkillMarkdown py yaml registered source = .ok p) :
    parseSkillMarkdown py yaml registered p.source = .ok p ∧
        buildSkillMarkdown py yaml registered p.name p.description p.tools p.body = .ok p ↔
      Readable py yaml registered p := by
  have hparsed := parsed_of_ok h
  have hmap : p.tools.map pyStrip = p.tools :=
    (List.map_congr_left (g := id) hparsed.cleanTools.stripped).trans (List.map_id _)
  rw [buildSkillMarkdown, hparsed.nameStripped, hparsed.joined, hmap, hparsed.bodyStripped,
    ← hparsed.source, and_self, parse_source hparsed, frontReads_iff hyaml hparsed]

end SkillFormat

end MineBot
