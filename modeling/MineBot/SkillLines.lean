import MineBot.SkillRoundTrip

/-!
# Skill documents line by line

A reader for the YAML that skill documents are written in: entries of one line, with
a plain or a quoted scalar, and lists of scalars. It is one of the readers that
`Documented` describes, and documents are read with it.
-/

namespace MineBot

namespace SkillFormat

open Regex

/-! ## Quoted scalars -/

def hexDigit (c : Char) : Nat := if c.isDigit then c.toNat - 48 else c.toNat - 87

/-- The character that an escape of one letter stands for. -/
def escaped : Char → Option Char
  | '"' => some '"'
  | '\\' => some '\\'
  | 'n' => some '\n'
  | 'r' => some '\r'
  | 't' => some '\t'
  | 'b' => some (Char.ofNat 8)
  | 'f' => some (Char.ofNat 12)
  | _ => none

/-- What follows the first quotation mark of a scalar, up to the last. -/
def unescape : List Char → Option (List Char)
  | [] => none
  | '"' :: cs => if cs = [] then some [] else none
  | '\\' :: 'u' :: a :: b :: c :: d :: cs =>
      (unescape cs).map fun text =>
        Char.ofNat (4096 * hexDigit a + 256 * hexDigit b + 16 * hexDigit c + hexDigit d) :: text
  | '\\' :: c :: cs => (escaped c).bind fun d => (unescape cs).map (d :: ·)
  | c :: cs => (unescape cs).map (c :: ·)

theorem hexDigit_digitChar {n : Nat} (h : n < 16) : hexDigit (Nat.digitChar n) = n := by
  decide +revert

theorem unescape_char {c : Char} {cs : List Char} (hquote : c ≠ '"') (hslash : c ≠ '\\') :
    unescape (c :: cs) = (unescape cs).map (c :: ·) := by
  rw [unescape]
  · exact hquote
  · intro a b c' d rest heq
    exact absurd heq hslash
  · intro d rest heq
    exact absurd heq hslash

theorem unescape_quoteChar (c : Char) (cs : List Char) :
    unescape ((Responses.quoteChar c).toList ++ cs) = (unescape cs).map (c :: ·) := by
  unfold Responses.quoteChar
  split
  · next h => rw [h]; rfl
  · next hquote =>
      split
      · next h => rw [h]; rfl
      · next hslash =>
          split
          · next h => rw [h]; rfl
          · split
            · next h => rw [h]; rfl
            · split
              · next h => rw [h]; rfl
              · split
                · next h => rw [← Char.ofNat_toNat c, h]; rfl
                · split
                  · next h => rw [← Char.ofNat_toNat c, h]; rfl
                  · split
                    · next hlt =>
                        have hhigh := @hexDigit_digitChar (c.toNat / 16) (by omega)
                        have hlow := @hexDigit_digitChar (c.toNat % 16) (by omega)
                        have hzero : hexDigit '0' = 0 := by decide
                        have hnum : 4096 * 0 + 256 * 0 + 16 * (c.toNat / 16) + c.toNat % 16 =
                            c.toNat := by omega
                        rw [String.toList_append, String.toList_ofList, String.toList_ofList]
                        simp only [List.cons_append, List.nil_append, unescape, hzero, hhigh, hlow]
                        rw [hnum, Char.ofNat_toNat]
                    · rw [String.toList_singleton, List.singleton_append,
                        unescape_char hquote hslash]

theorem unescape_quoted (text : List Char) :
    unescape ((text.flatMap fun c => (Responses.quoteChar c).toList) ++ ['"']) = some text := by
  induction text with
  | nil => rfl
  | cons c text ih => rw [List.flatMap_cons, List.append_assoc, unescape_quoteChar, ih]; rfl

/-! ## Lines -/

/-- The texts between the line ends. -/
def splitLines : List Char → List (List Char)
  | [] => [[]]
  | c :: cs =>
      if c = '\n' then [] :: splitLines cs
      else
        match splitLines cs with
        | [] => [[c]]
        | line :: lines => (c :: line) :: lines

theorem splitLines_line {line : List Char} (h : '\n' ∉ line) : splitLines line = [line] := by
  induction line with
  | nil => rfl
  | cons c line ih =>
      rw [List.mem_cons, not_or] at h
      have hc : c ≠ '\n' := fun heq => h.1 heq.symm
      rw [splitLines, if_neg hc, ih h.2]

theorem splitLines_append {line : List Char} (h : '\n' ∉ line) (cs : List Char) :
    splitLines (line ++ '\n' :: cs) = line :: splitLines cs := by
  induction line with
  | nil => rw [List.nil_append, splitLines, if_pos rfl]
  | cons c line ih =>
      rw [List.mem_cons, not_or] at h
      have hc : c ≠ '\n' := fun heq => h.1 heq.symm
      rw [List.cons_append, splitLines, if_neg hc, ih h.2]

/-! ## The reader -/

/-- The scalar of a word that is not quoted. -/
def plainWord (cs : List Char) : Node :=
  if notText.fullmatch cs then
    .scalar (if cs = "null".toList then .null else .other (.ofList cs))
  else .scalar (.text (.ofList cs))

def isWordChar (c : Char) : Bool := isNameChar c || c = '_'

def readValue : List Char → Option Node
  | '"' :: cs => (unescape cs).map fun text => .scalar (.text (.ofList text))
  | ['[', ']'] => some (.sequence [])
  | cs => if cs ≠ [] ∧ cs.all isWordChar then some (plainWord cs) else none

/-- The items that await their key, and the entries that follow. -/
structure Reading where
  items : List Node
  pairs : List (Node × Node)

def readLine (line : List Char) (reading : Reading) : Option Reading :=
  match line with
  | ' ' :: ' ' :: '-' :: ' ' :: cs =>
      (readValue cs).map fun item => { reading with items := item :: reading.items }
  | _ =>
      let key := line.takeWhile (· ≠ ':')
      let entry := fun node => ⟨[], (plainWord key, node) :: reading.pairs⟩
      if key.all isWordChar then
        match line.dropWhile (· ≠ ':'), reading.items with
        | [':'], [] => some (entry (.scalar .null))
        | [':'], items => some (entry (.sequence items))
        | ':' :: ' ' :: cs, [] => (readValue cs).map entry
        | _, _ => none
      else none

/-- The last line is read first. -/
def readLines (lines : List (List Char)) : Option Reading :=
  lines.foldr (fun line reading => reading.bind (readLine line)) (some ⟨[], []⟩)

def composeLines (text : List Char) : Except String (Option Node) :=
  match readLines (splitLines text) with
  | some ⟨[], pairs⟩ => .ok (some (.mapping pairs))
  | _ => .error "the lines are no entries"

/-- YAML of entries that take a line each. -/
def lineYaml : Yaml where
  scan text := if text.all isPrintable then .ok [] else .error "unacceptable character"
  compose := composeLines
  plain := plainWord

theorem readsAs_lineYaml {text : List Char} {pairs : List (Node × Node)} :
    ReadsAs lineYaml text pairs ↔
      text.all isPrintable ∧ readLines (splitLines text) = some ⟨[], pairs⟩ := by
  constructor
  · rintro ⟨⟨tokens, hscan, -⟩, hcompose⟩
    constructor
    · by_contra hprint
      simp only [lineYaml] at hscan
      rw [if_neg hprint] at hscan
      cases hscan
    · simp only [lineYaml, composeLines] at hcompose
      split at hcompose
      · next pairs' heq =>
          obtain rfl := Node.mapping.inj (Option.some.inj (Except.ok.inj hcompose))
          exact heq
      · cases hcompose
  · rintro ⟨hprint, hread⟩
    refine ⟨⟨[], ?_, List.not_mem_nil⟩, ?_⟩
    · simp only [lineYaml]
      rw [if_pos hprint]
    · simp only [lineYaml, composeLines, hread]

/-! ## The lines of a header -/

theorem name_ne_nil {name : String} (h : IsName name) : name.toList ≠ [] := by
  intro hnil
  rw [IsName, hnil] at h
  revert h
  decide

theorem readValue_name {name : String} (h : IsName name) :
    readValue name.toList = some (plainWord name.toList) := by
  have hchars := mem_name h
  have hword : name.toList.all isWordChar := by
    refine List.all_eq_true.mpr fun c hc => ?_
    rw [isWordChar, hchars c hc]
    rfl
  unfold readValue
  split
  · next cs heq =>
      have hquote := hchars '"' (heq ▸ List.mem_cons_self)
      exact absurd hquote (by decide)
  · next heq =>
      have hbracket := hchars '[' (heq ▸ List.mem_cons_self)
      exact absurd hbracket (by decide)
  · rw [if_pos ⟨name_ne_nil h, hword⟩]

theorem readValue_quoted (text : String) :
    readValue (Responses.quoteText text).toList = some (.scalar (.text text)) := by
  have hunescape := unescape_quoted text.toList
  rw [toList_quoteText, List.cons_append, readValue, hunescape, Option.map_some,
    String.ofList_toList]

theorem readLine_entry {key cs : List Char} (hcolon : ':' ∉ key) (hword : key.all isWordChar)
    (reading : Reading) : readLine (key ++ ':' :: ' ' :: cs) reading =
      if reading.items = [] then
        (readValue cs).map fun node => ⟨[], (plainWord key, node) :: reading.pairs⟩
      else none := by
  have hkey : ∀ c ∈ key, decide (c ≠ ':') = true := by
    intro c hc
    exact decide_eq_true fun heq => hcolon (heq ▸ hc)
  have htake : (key ++ ':' :: ' ' :: cs).takeWhile (· ≠ ':') = key := by
    rw [List.takeWhile_append_of_pos hkey]
    simp
  have hdrop : (key ++ ':' :: ' ' :: cs).dropWhile (· ≠ ':') = ':' :: ' ' :: cs := by
    rw [List.dropWhile_append_of_pos hkey]
    simp
  unfold readLine
  split
  · next rest heq =>
      -- a key has no blank in it
      exfalso
      cases key with
      | nil => cases heq
      | cons c key =>
          obtain ⟨rfl, -⟩ := List.cons.inj heq
          have hblank := List.all_eq_true.mp hword ' ' List.mem_cons_self
          exact absurd hblank (by decide)
  · simp only [htake, hdrop, hword, if_true]
    cases reading.items with
    | nil =>
        rw [if_pos rfl]
        rfl
    | cons item items =>
        rw [if_neg (List.cons_ne_nil item items)]
        rfl

theorem resolvesAsText_words :
    ["name", "description", "tools", "orchard", "plant"].all resolvesAsText = true := by
  decide +kernel

theorem plainWord_text {name : String} (h : resolvesAsText name) :
    plainWord name.toList = .scalar (.text name) := by
  rw [resolvesAsText, Bool.not_eq_true'] at h
  rw [plainWord, h, if_neg Bool.false_ne_true, String.ofList_toList]

theorem plainWord_word (word : String)
    (h : word ∈ ["name", "description", "tools", "orchard", "plant"]) :
    plainWord word.toList = .scalar (.text word) :=
  plainWord_text (List.all_eq_true.mp resolvesAsText_words word h)

theorem printable_digitChar {n : Nat} (h : n < 16) : isPrintable (Nat.digitChar n) := by
  decide +revert

theorem printable_quoteChar {c : Char} (h : 32 ≤ c.toNat → isPrintable c) :
    (Responses.quoteChar c).toList.all isPrintable := by
  unfold Responses.quoteChar
  split
  · decide
  · split
    · decide
    · split
      · decide
      · split
        · decide
        · split
          · decide
          · split
            · decide
            · split
              · decide
              · split
                · next hlt =>
                    have hhigh := @printable_digitChar (c.toNat / 16) (by omega)
                    have hlow := @printable_digitChar (c.toNat % 16) (by omega)
                    rw [String.toList_append, List.all_append, String.toList_ofList,
                      String.toList_ofList]
                    simp only [List.all_cons, List.all_nil, hhigh, hlow]
                    decide
                · next hge =>
                    rw [String.toList_singleton, List.all_cons, h (by omega)]
                    rfl

theorem printable_name {name : String} (h : IsName name) : name.toList.all isPrintable := by
  refine List.all_eq_true.mpr fun c hc => ?_
  have hchar := mem_name h c hc
  have hrange : 32 ≤ c.toNat ∧ c.toNat ≤ 126 := by
    simp only [isNameChar, isSmall, Char.isDigit, Char.isLower, Bool.or_eq_true, Bool.and_eq_true,
      decide_eq_true_eq] at hchar
    rcases hchar with (⟨hlow, hhigh⟩ | ⟨hlow, hhigh⟩) | rfl
    · have hlow' : 48 ≤ c.toNat := UInt32.le_iff_toNat_le.mp hlow
      have hhigh' : c.toNat ≤ 57 := UInt32.le_iff_toNat_le.mp hhigh
      omega
    · have hlow' : 97 ≤ c.toNat := UInt32.le_iff_toNat_le.mp hlow
      have hhigh' : c.toNat ≤ 122 := UInt32.le_iff_toNat_le.mp hhigh
      omega
    · decide
  simp [isPrintable, hrange]

/-- The characters of a header can be read. -/
theorem printable_header {name description : String} (h : IsName name)
    (hdescription : Legible description) : (header name description).all isPrintable := by
  have hquoted : (Responses.quoteText description).toList.all isPrintable := by
    rw [toList_quoteText, List.all_append, List.all_cons, List.all_flatMap]
    have hchars : description.toList.all (fun c => (Responses.quoteChar c).toList.all isPrintable) :=
      List.all_eq_true.mpr fun c hc => printable_quoteChar (hdescription c hc)
    rw [hchars]
    rfl
  rw [header_eq, List.all_append, List.all_append, List.all_cons, List.all_append, hquoted,
    printable_name h]
  decide

theorem readLines_header {name : String} (h : IsName name) (description : String)
    (lines : List (List Char)) :
    readLines (("name: ".toList ++ name.toList) ::
      ("description: ".toList ++ (Responses.quoteText description).toList) :: lines) =
      (readLines lines).bind fun reading =>
        if reading.items = [] then
          some ⟨[], headerPairs lineYaml name description ++ reading.pairs⟩
        else none := by
  have hname : "name: ".toList = "name".toList ++ [':', ' '] := by decide
  have hdesc : "description: ".toList = "description".toList ++ [':', ' '] := by decide
  have hfirst := plainWord_word "name" (by simp)
  have hsecond := plainWord_word "description" (by simp)
  rw [readLines, List.foldr_cons, List.foldr_cons, ← readLines]
  cases readLines lines with
  | none => rfl
  | some reading =>
      rw [Option.bind_some, Option.bind_some, hname, hdesc, List.append_assoc, List.append_assoc,
        List.cons_append, List.cons_append, List.cons_append, List.cons_append, List.nil_append,
        List.nil_append, readLine_entry (by decide) (by decide), readValue_quoted, Option.map_some,
        hsecond]
      by_cases hitems : reading.items = []
      · rw [if_pos hitems, if_pos hitems, Option.bind_some,
          readLine_entry (by decide) (by decide), readValue_name h, if_pos rfl, Option.map_some,
          hfirst]
        rfl
      · rw [if_neg hitems, if_neg hitems]
        rfl

theorem documented_lineYaml : Documented lineYaml where
  printable text tokens hscan := by
    simp only [lineYaml] at hscan
    split at hscan
    · next hprint => exact List.all_eq_true.mp hprint
    · cases hscan
  text name _ h := plainWord_text h
  resolved name _ h value heq := by
    have hmatch : notText.fullmatch name.toList = true := by simpa [resolvesAsText] using h
    simp only [lineYaml, plainWord] at heq
    rw [if_pos hmatch] at heq
    split at heq
    · cases Node.scalar.inj heq
    · cases Node.scalar.inj heq
  alone name description hname _ hlegible := by
    have hread := readLines_header hname description []
    have hline := splitLines_line (not_mem_descriptionLine description (.inl rfl))
    refine readsAs_lineYaml.mpr ⟨printable_header hname hlegible, ?_⟩
    rw [header_eq, splitLines_append (not_mem_nameLine hname (.inl rfl)), hline, hread]
    exact congrArg (fun pairs => some (Reading.mk [] pairs)) (List.append_nil _)
  entries name description block hname _ hlegible _ pairs := by
    have hread := readLines_header hname description (splitLines block)
    have hlines : splitLines (header name description ++ '\n' :: block) =
        ("name: ".toList ++ name.toList) ::
          ("description: ".toList ++ (Responses.quoteText description).toList) ::
            splitLines block := by
      rw [header_eq, List.append_assoc, List.cons_append,
        splitLines_append (not_mem_nameLine hname (.inl rfl)),
        splitLines_append (not_mem_descriptionLine description (.inl rfl))]
    have hprint : (header name description ++ '\n' :: block).all isPrintable =
        block.all isPrintable := by
      rw [List.all_append, printable_header hname hlegible, List.all_cons]
      rfl
    rw [readsAs_lineYaml, hprint, hlines, hread]
    constructor
    · rintro ⟨hblock, heq⟩
      obtain ⟨⟨items, rest⟩, hrest, heq⟩ := Option.bind_eq_some_iff.mp heq
      split at heq
      · next hitems =>
          obtain rfl : items = [] := hitems
          obtain ⟨-, rfl⟩ := Reading.mk.inj (Option.some.inj heq)
          exact ⟨rest, rfl, readsAs_lineYaml.mpr ⟨hblock, hrest⟩⟩
      · cases heq
    · rintro ⟨rest, rfl, hrest⟩
      obtain ⟨hblock, heq⟩ := readsAs_lineYaml.mp hrest
      rw [heq]
      exact ⟨hblock, rfl⟩

/-! ## A document without tools -/

/-- The words of ASCII, with the digest of the skill that plants. -/
def asciiPython : SkillPython where
  casefold := String.toLower
  isWord c := c.isAlphanum || c = '_'
  repr key := "'" ++ keyText key ++ "'"
  sha256 _ := "020c4aeefeee062123c726c4030165f7954da08b7a57fab71758441c6c0f03f5"

def orchardDescription : String := "Plant saplings in rows near the base."

def orchardBody : String :=
  "# Orchard\n## Use When\nnear\n## Do Not Use When\nfar\n## Method\nplant\n"
    ++ "## Evidence Of Success\ntrees\n## Failure And Adaptation\nwait\n## Boundaries\nfield"

theorem toList_orchardBody : orchardBody.toList =
    "# Orchard\n## Use When\nnear\n## Do Not Use When\nfar\n## Method\nplant\n".toList
      ++ "## Evidence Of Success\ntrees\n## Failure And Adaptation\nwait\n## Boundaries\nfield".toList :=
  String.toList_append

/-- The document whose tools are the lines of `block`. -/
def orchardText (block : List Char) : List Char :=
  opening ++ (header "orchard" orchardDescription ++ '\n' :: block
    ++ (closing ++ '\n' :: orchardBody.toList ++ ['\n']))

def orchard (tools : List String) : ParsedSkill :=
  let source := canonicalSkillMarkdown "orchard" orchardDescription tools orchardBody
  ⟨"orchard", orchardDescription, tools, orchardBody, source, "sha256:" ++ asciiPython.sha256 source⟩

theorem orchard_facts : IsName "orchard" ∧ orchardDescription.toList.all isPrintable ∧
    joinWords orchardDescription = orchardDescription ∧
    validateName (some (.scalar (.text "orchard"))) = .ok "orchard" ∧
    validateDescription asciiPython (some (.scalar (.text orchardDescription))) =
      .ok orchardDescription ∧ pyStrip orchardBody = orchardBody := by
  unfold IsName
  refine ⟨by decide +kernel, by decide +kernel, by decide +kernel, by decide +kernel,
    by decide +kernel, String.toList_inj.mp ?_⟩
  rw [toList_pyStrip, toList_orchardBody, String.toList_ofList, String.toList_ofList]
  decide +kernel

theorem validateBody_of {py : SkillPython} {body : String} (hstripped : pyStrip body = body)
    (hchars : body.toList.length ≤ 8000) (hlines : (splitlines body.toList).length ≤ 200)
    (hcontrol : (body.toList.any fun c => c.toNat < 32 && c ≠ '\n' && c ≠ '\t') = false)
    (hfirst : ((splitlines body.toList).filter firstHeading.fullmatch).length = 1)
    (hsecond : (secondHeadings (splitlines body.toList)).map Prod.snd = requiredSkillSections)
    (hsections : requiredSkillSections.find? (sectionEmpty (splitlines body.toList)) = none)
    (hlinks : (markdownLink.search body.toList || containsText "../".toList body.toList
      || containsText "~/".toList body.toList) = false)
    (hsecret : (secretPattern py).search body.toList = false)
    (hcommands : ((rawServerCommand py).search body.toList
      || (rawScarpetEntrypoint py).search body.toList) = false)
    (hdirects : (directs py (unsafeDirective py) body.toList
      || directs py (falseSuccessDirective py) body.toList) = false) :
    validateBody py body = .ok body := by
  rw [String.length_toList] at hchars
  unfold validateBody
  simp only [hstripped, hcontrol, hfirst, hsecond, hsections, hlinks, hsecret, hcommands, hdirects,
    maxSkillBodyChars, maxSkillBodyLines, not_lt.mpr hchars, not_lt.mpr hlines, ne_eq, not_true,
    if_false, Bool.false_eq_true]

theorem validateBody_orchard : validateBody asciiPython orchardBody = .ok orchardBody := by
  refine validateBody_of orchard_facts.2.2.2.2.2 ?_ ?_ ?_ ?_ ?_ ?_ ?_ ?_ ?_ ?_ <;>
    rw [toList_orchardBody, String.toList_ofList, String.toList_ofList] <;>
    decide +kernel

/-- The fields that a header and its tools are read as. -/
theorem load_orchard {block : List Char} {node : Node} {value : Value}
    (hstart : "tools:".toList <+: block)
    (hreads : ReadsAs lineYaml block [(.scalar (.text "tools"), node)])
    (hvalue : construct asciiPython node = .ok value) :
    loadFrontmatter asciiPython lineYaml (header "orchard" orchardDescription ++ '\n' :: block) =
      .ok [(.text "name", .scalar (.text "orchard")),
        (.text "description", .scalar (.text orchardDescription)), (.text "tools", value)] := by
  obtain ⟨hisName, hprint, hjoined, -⟩ := orchard_facts
  have hlegible : Legible orchardDescription := fun c hc _ => List.all_eq_true.mp hprint c hc
  have hplain : lineYaml.plain "orchard".toList = .scalar (.text "orchard") :=
    plainWord_word "orchard" (by simp)
  have hreads := (documented_lineYaml.entries _ _ _ hisName hjoined hlegible hstart _).mpr
    ⟨_, rfl, hreads⟩
  refine load_ok.mpr ⟨_, hreads, ?_, fun key hmem => ?_, by simp, by simp⟩
  · rw [constructPairs_header, hplain, construct]
    have hkey : construct asciiPython (.scalar (.text "tools")) = .ok (.scalar (.text "tools")) := by
      rw [construct]
    simp [constructPairs, hkey, hvalue]
  · simp only [List.map_cons, List.map_nil, List.mem_cons, List.not_mem_nil, or_false] at hmem
    rcases hmem with rfl | rfl | rfl
    · exact ⟨"name", by decide, rfl⟩
    · exact ⟨"description", by decide, rfl⟩
    · exact ⟨"tools", by decide, rfl⟩

theorem parse_orchardText {block : List Char} {node : Node} {value : Value} {tools : List String}
    (hstart : "tools:".toList <+: block) (hreturn : '\r' ∉ block)
    (hunbroken : Unbroken closing block)
    (hreads : ReadsAs lineYaml block [(.scalar (.text "tools"), node)])
    (hvalue : construct asciiPython node = .ok value)
    (htools : validateTools none (some value) = .ok tools) :
    parseSkillMarkdown asciiPython lineYaml none (.ofList (orchardText block)) =
      .ok (orchard tools) := by
  obtain ⟨hisName, -, -, hname, hdescription, -⟩ := orchard_facts
  obtain ⟨hbody, -, hbodyReturn⟩ := validateBody_ok validateBody_orchard
  have hnonempty : orchardBody ≠ "" := by
    intro hnil
    have hlist := congrArg String.toList hnil
    rw [toList_orchardBody, String.toList_ofList] at hlist
    exact List.cons_ne_nil _ _ hlist
  have hload := load_orchard hstart hreads hvalue
  have hfront : Unbroken closing (header "orchard" orchardDescription ++ '\n' :: block) := by
    obtain ⟨rest, rfl⟩ := hstart
    have hhead : "tools:".toList = 't' :: "ools:".toList := by decide
    rw [hhead, List.cons_append] at hunbroken ⊢
    exact (unbroken_block hisName orchardDescription (by decide)).mpr hunbroken
  have hnewlines : newlines (orchardText block) = orchardText block := by
    have hopening : '\r' ∉ opening := by decide
    have hclosing : '\r' ∉ closing := by decide
    have hheader := return_not_mem_header hisName orchardDescription
    refine newlines_of_not_mem ?_
    simp only [orchardText, List.mem_append, List.mem_cons, not_or]
    exact ⟨hopening, ⟨hheader, by decide, hreturn⟩, ⟨hclosing, by decide, hbodyReturn⟩, by decide⟩
  have hsplit : splitFrontmatter (newlines (String.ofList (orchardText block)).toList) =
      .ok (header "orchard" orchardDescription ++ '\n' :: block, orchardBody) := by
    rw [String.toList_ofList, hnewlines, orchardText,
      splitFrontmatter_text hbody.symm hnonempty hfront]
  refine parse_of_fields hsplit hload ?_ ?_ ?_ validateBody_orchard
  · rw [field_cons, if_pos rfl, hname]
  · rw [field_cons, if_neg (by decide), field_cons, if_pos rfl, hdescription]
  · rw [field_cons, if_neg (by decide), field_cons, if_neg (by decide), field_cons, if_pos rfl,
      htools]

theorem reads_toolless :
    ReadsAs lineYaml "tools: []".toList [(.scalar (.text "tools"), .sequence [])] := by
  have hline : "tools: []".toList = "tools".toList ++ ':' :: ' ' :: ['[', ']'] := by decide
  refine readsAs_lineYaml.mpr ⟨by decide, ?_⟩
  rw [splitLines_line (by decide), readLines, List.foldr_cons, List.foldr_nil, Option.bind_some,
    hline, readLine_entry (by decide) (by decide), if_pos rfl, plainWord_word "tools" (by simp)]
  rfl

theorem parse_toolless : parseSkillMarkdown asciiPython lineYaml none
    (.ofList (orchardText "tools: []".toList)) = .ok (orchard []) := by
  have hvalue : construct asciiPython (.sequence []) = .ok (.list []) := by
    rw [construct, constructItems]
    rfl
  exact parse_orchardText ⟨" []".toList, by decide⟩ (by decide) (by unfold Unbroken; decide)
    reads_toolless hvalue (by decide)

theorem reads_plant : ReadsAs lineYaml "tools:\n  - plant".toList
    [(.scalar (.text "tools"), .sequence [.scalar (.text "plant")])] := by
  have hlines : "tools:\n  - plant".toList =
      "tools:".toList ++ '\n' :: (' ' :: ' ' :: '-' :: ' ' :: "plant".toList) := by decide
  have hisName : IsName "plant" := by
    unfold IsName
    decide
  have hitem : readLine (' ' :: ' ' :: '-' :: ' ' :: "plant".toList) ⟨[], []⟩ =
      some ⟨[.scalar (.text "plant")], []⟩ := by
    rw [readLine, readValue_name hisName, plainWord_word "plant" (by simp)]
    rfl
  have hkey : readLine "tools:".toList ⟨[.scalar (.text "plant")], []⟩ =
      some ⟨[], [(plainWord "tools".toList, .sequence [.scalar (.text "plant")])]⟩ := rfl
  refine readsAs_lineYaml.mpr ⟨by decide, ?_⟩
  rw [hlines, splitLines_append (by decide), splitLines_line (by decide), readLines,
    List.foldr_cons, List.foldr_cons, List.foldr_nil, Option.bind_some, hitem, Option.bind_some,
    hkey, plainWord_word "tools" (by simp)]

theorem readsBack_plant : ReadsBack asciiPython lineYaml none ["plant"] := by
  have hblock : newlines (toolBlock ["plant"]) = "tools:\n  - plant".toList := by decide
  have hkey : construct asciiPython (.scalar (.text "tools")) = .ok (.scalar (.text "tools")) := by
    rw [construct]
  have hvalue : construct asciiPython (.sequence [.scalar (.text "plant")]) =
      .ok (.list [.scalar (.text "plant")]) := by
    simp [construct, constructItems, Except.map]
  refine ⟨?_, _, .list [.scalar (.text "plant")], hblock ▸ reads_plant, ?_, by decide⟩
  · rw [hblock, Unbroken]
    decide
  · simp [constructPairs, hkey, hvalue]

theorem parse_plant : parseSkillMarkdown asciiPython lineYaml none
    (.ofList (orchardText "tools:\n  - plant".toList)) = .ok (orchard ["plant"]) := by
  have hvalue : construct asciiPython (.sequence [.scalar (.text "plant")]) =
      .ok (.list [.scalar (.text "plant")]) := by
    simp [construct, constructItems, Except.map]
  exact parse_orchardText ⟨"\n  - plant".toList, by decide⟩ (by decide)
    (by unfold Unbroken; decide) reads_plant hvalue (by decide)

theorem readable_plant : Readable asciiPython lineYaml none (orchard ["plant"]) where
  name := List.all_eq_true.mp resolvesAsText_words "orchard" (by simp)
  description c hc _ := List.all_eq_true.mp orchard_facts.2.1 c hc
  tools := List.cons_ne_nil "plant" []
  block := readsBack_plant

/-- Tools in a list are read again. -/
theorem skill_round_trip_orchard :
    parseSkillMarkdown asciiPython lineYaml none (orchard ["plant"]).source =
        .ok (orchard ["plant"]) ∧
      buildSkillMarkdown asciiPython lineYaml none "orchard" orchardDescription ["plant"]
        orchardBody = .ok (orchard ["plant"]) :=
  (skill_round_trip asciiPython lineYaml documented_lineYaml none _ _ parse_plant).mpr readable_plant

/-- The canonical text of a skill whose list of tools is empty is another document. -/
theorem toolless_refused :
    parseSkillMarkdown asciiPython lineYaml none (.ofList (orchardText "tools: []".toList)) =
        .ok (orchard []) ∧
      parseSkillMarkdown asciiPython lineYaml none (orchard []).source ≠ .ok (orchard []) := by
  refine ⟨parse_toolless, fun h => ?_⟩
  have hparsed := parsed_of_ok parse_toolless
  exact ((frontReads_iff documented_lineYaml hparsed).mp ((parse_source hparsed).mp h)).tools rfl

end SkillFormat

end MineBot
