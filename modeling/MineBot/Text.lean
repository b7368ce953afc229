import Mathlib
import MineBot.Json

/-!
# Text normalisation

The text helpers of `runtime_state_mapping` (`_bounded_text`,
`_required_text`) and the readings of text the code leaves to Python:
`str.split()` on white space and `int(x)`. A Python string is a
sequence of code points, so the work is done on `List Char`.
-/

namespace MineBot

/-- White space as `str.split()` and `str.strip()` see it. -/
def isPySpace (c : Char) : Bool :=
  let n := c.toNat
  (9 ≤ n && n ≤ 13) || (28 ≤ n && n ≤ 32) || n == 0x85 || n == 0xa0
    || n == 0x1680 || (0x2000 ≤ n && n ≤ 0x200a) || n == 0x2028
    || n == 0x2029 || n == 0x202f || n == 0x205f || n == 0x3000

/-- `str.strip()`. -/
def pyStrip (text : String) : String :=
  .ofList (((text.toList.dropWhile isPySpace).reverse.dropWhile isPySpace).reverse)

theorem length_pyStrip (text : String) : (pyStrip text).length ≤ text.length := by
  have h₁ := (text.toList.dropWhile_suffix isPySpace).length_le
  have h₂ := ((text.toList.dropWhile isPySpace).reverse.dropWhile_suffix isPySpace).length_le
  rw [pyStrip, String.length_ofList, List.length_reverse]
  rw [List.length_reverse] at h₂
  exact (h₂.trans h₁).trans String.length_toList.le

/-- A stripped text has no white space at its ends. -/
theorem pyStrip_pyStrip (text : String) : pyStrip (pyStrip text) = pyStrip text := by
  have hright : ∀ cs : List Char,
      (cs.reverse.dropWhile isPySpace).reverse = cs.rdropWhile isPySpace := fun _ => rfl
  have hleft : ∀ cs : List Char, ((cs.dropWhile isPySpace).rdropWhile isPySpace).dropWhile isPySpace
      = (cs.dropWhile isPySpace).rdropWhile isPySpace := by
    intro cs
    have hpre := List.rdropWhile_prefix isPySpace (cs.dropWhile isPySpace)
    refine List.dropWhile_eq_self_iff.mpr fun hl hc => ?_
    refine List.dropWhile_eq_self_iff.mp (List.dropWhile_idempotent isPySpace cs)
      (hl.trans_le hpre.length_le) ?_
    rwa [hpre.getElem hl] at hc
  simp only [pyStrip, hright, String.toList_ofList, hleft, List.rdropWhile_idempotent]

/-- The word that starts right here (empty before white space) and the
words after it. -/
def splitWords : List Char → List Char × List (List Char)
  | [] => ([], [])
  | c :: cs =>
      let (word, rest) := splitWords cs
      if isPySpace c then ([], if word.isEmpty then rest else word :: rest)
      else (c :: word, rest)

/-- `text.split()`. -/
def pySplit (cs : List Char) : List (List Char) :=
  let (word, rest) := splitWords cs
  if word.isEmpty then rest else word :: rest

/-- `_bounded_text`: white space collapsed to single blanks, cut to
`maxLength` code points. -/
def boundedText (value : String) (maxLength : Nat) : String :=
  .ofList (([' '].intercalate (pySplit value.toList)).take maxLength)

/-- `_bounded_text_list`. -/
def boundedTextList (values : List String) (maxItems maxLength : Nat) : List String :=
  ((values.take maxItems).map (boundedText · maxLength)).filter (· ≠ "")

/-- `_required_text`; `none` is its `ValueError` on empty text. -/
def requiredText (value : String) (maxLength : Nat) : Option String :=
  let clean := boundedText value maxLength
  if clean = "" then none else some clean

theorem requiredText_eq_some {value clean : String} {n : Nat}
    (h : requiredText value n = some clean) :
    clean = boundedText value n ∧ clean ≠ "" := by
  simp only [requiredText] at h
  split at h
  · cases h
  · next hne => cases h; exact ⟨rfl, hne⟩

theorem splitWords_of_space {cs : List Char} (h : ∀ c ∈ cs, isPySpace c = true) :
    splitWords cs = ([], []) := by
  induction cs with
  | nil => rfl
  | cons c cs ih =>
      have hc : isPySpace c = true := h c List.mem_cons_self
      have hcs := ih fun d hd => h d (List.mem_cons_of_mem _ hd)
      simp [splitWords, hcs, hc]

/-- Only white space is cut to the empty text. -/
theorem exists_of_boundedText_ne_empty {value : String} {n : Nat} (h : boundedText value n ≠ "") :
    ∃ c ∈ value.toList, isPySpace c = false := by
  refine Classical.byContradiction fun hblank => h ?_
  have hspace : ∀ c ∈ value.toList, isPySpace c = true := by simpa using hblank
  simp [boundedText, pySplit, splitWords_of_space hspace]

/-! ## Integers out of JSON -/

/-- The digits of `int(text)` after the first one: single underscores
may stand between digits. -/
def digitsTail (acc : Nat) : List Char → Option Nat
  | [] => some acc
  | '_' :: c :: cs =>
      if c.isDigit then digitsTail (acc * 10 + (c.toNat - 48)) cs else none
  | c :: cs =>
      if c.isDigit then digitsTail (acc * 10 + (c.toNat - 48)) cs else none

def digits : List Char → Option Nat
  | c :: cs => if c.isDigit then digitsTail (c.toNat - 48) cs else none
  | [] => none

/-- `int(text)`, for the ASCII digits. -/
def intOfText (text : String) : Option Int :=
  let stripped := ((text.toList.dropWhile isPySpace).reverse.dropWhile isPySpace).reverse
  match stripped with
  | '-' :: cs => (digits cs).map fun n => -(n : Int)
  | '+' :: cs => (digits cs).map fun n => (n : Int)
  | cs => (digits cs).map fun n => (n : Int)

/-- What `int(x)` raises. -/
inductive IntError where
  | typeError
  | valueError
deriving Repr, DecidableEq

/-- `int(x)` of a decoded JSON value: floats are truncated towards zero. -/
def pyInt : Json → Except IntError Int
  | .int n => .ok n
  | .bool b => .ok (if b then 1 else 0)
  | .float q => .ok (q.num.tdiv q.den)
  | .str s => match intOfText s with
    | some n => .ok n
    | none => .error .valueError
  | .null | .arr _ | .obj _ => .error .typeError

example : boundedText " a \t b\n" 500 = "a b" := by decide

/-! ## Texts that differ at their ends -/

/-- The last word takes what is appended to a text without white space in it. -/
theorem splitWords_append (cs : List Char) :
    (∀ ds, (∀ d ∈ ds, isPySpace d = false) → ds ≠ [] → splitWords (cs ++ ds) = (cs ++ ds, []))
    ∨ ∃ w q l, ∀ ds, (∀ d ∈ ds, isPySpace d = false) → ds ≠ [] →
        splitWords (cs ++ ds) = (w, q ++ [l ++ ds]) := by
  induction cs with
  | nil =>
      refine .inl fun ds => ?_
      induction ds with
      | nil => exact fun _ hne => absurd rfl hne
      | cons d ds ih =>
          intro hds _
          rw [List.forall_mem_cons] at hds
          by_cases hnil : ds = []
          · subst hnil
            simp [splitWords, hds.1]
          · have hrest := ih hds.2 hnil
            rw [List.nil_append] at hrest
            simp [splitWords, hds.1, hrest]
  | cons c cs ih =>
      rcases ih with hword | ⟨w, q, l, hwords⟩
      · cases hc : isPySpace c with
        | false =>
            refine .inl fun ds hds hne => ?_
            simp [splitWords, hword ds hds hne, hc]
        | true =>
            refine .inr ⟨[], [], cs, fun ds hds hne => ?_⟩
            simp [splitWords, hword ds hds hne, hc, hne]
      · cases hc : isPySpace c with
        | false =>
            refine .inr ⟨c :: w, q, l, fun ds hds hne => ?_⟩
            simp [splitWords, hwords ds hds hne, hc]
        | true =>
            refine .inr ⟨[], if w.isEmpty then q else w :: q, l, fun ds hds hne => ?_⟩
            simp only [List.cons_append, splitWords, hwords ds hds hne, hc, if_true]
            split <;> rfl

theorem intercalate_append_last (sep : List Char) (ws : List (List Char)) (l ds : List Char) :
    sep.intercalate (ws ++ [l ++ ds]) = sep.intercalate (ws ++ [l]) ++ ds := by
  induction ws with
  | nil => simp
  | cons w ws ih =>
      rw [List.cons_append, List.cons_append, List.intercalate_cons_of_ne_nil (by simp),
        List.intercalate_cons_of_ne_nil (by simp), ih]
      simp only [List.append_assoc]

/-- Collapsing white space leaves the end of a text that has none. -/
theorem intercalate_pySplit_append (cs : List Char) :
    ∃ front, ∀ ds, (∀ d ∈ ds, isPySpace d = false) → ds ≠ [] →
      [' '].intercalate (pySplit (cs ++ ds)) = front ++ ds := by
  rcases splitWords_append cs with hword | ⟨w, q, l, hwords⟩
  · refine ⟨cs, fun ds hds hne => ?_⟩
    simp [pySplit, hword ds hds hne, hne]
  · refine ⟨[' '].intercalate ((if w.isEmpty then q else w :: q) ++ [l]), fun ds hds hne => ?_⟩
    rw [← intercalate_append_last, pySplit, hwords ds hds hne]
    simp only
    split <;> rfl

theorem length_splitWords (cs : List Char) :
    (splitWords cs).1.length + ((splitWords cs).2.map (·.length + 1)).sum ≤ cs.length := by
  induction cs with
  | nil => simp [splitWords]
  | cons c cs ih =>
      simp only [splitWords]
      split
      · simp only [List.length_nil, List.length_cons]
        split
        · omega
        · rw [List.map_cons, List.sum_cons]
          omega
      · simp only [List.length_cons]
        omega

theorem length_intercalate (ws : List (List Char)) :
    ([' '].intercalate ws).length = (ws.map (·.length + 1)).sum - 1 := by
  induction ws with
  | nil => rfl
  | cons w ws ih =>
      cases ws with
      | nil => simp
      | cons w' ws =>
          rw [List.intercalate_cons_cons, List.length_append, List.length_append, ih]
          simp only [List.map_cons, List.sum_cons, List.length_singleton]
          omega

/-- Collapsing white space lengthens no text. -/
theorem length_intercalate_pySplit (cs : List Char) :
    ([' '].intercalate (pySplit cs)).length ≤ cs.length := by
  have h := length_splitWords cs
  rw [length_intercalate, pySplit]
  simp only
  split
  · omega
  · rw [List.map_cons, List.sum_cons]
    omega

/-- Two texts that are not cut and differ at their ends, where there is no
white space, stay apart. -/
theorem boundedText_append_inj {cs ds es : List Char} {n : Nat}
    (hds : ∀ d ∈ ds, isPySpace d = false) (hes : ∀ e ∈ es, isPySpace e = false)
    (hds' : ds ≠ []) (hes' : es ≠ []) (hn : (cs ++ ds).length ≤ n) (hm : (cs ++ es).length ≤ n)
    (h : boundedText (.ofList (cs ++ ds)) n = boundedText (.ofList (cs ++ es)) n) : ds = es := by
  have hcut : ∀ xs : List Char, xs.length ≤ n →
      ([' '].intercalate (pySplit xs)).take n = [' '].intercalate (pySplit xs) := by
    intro xs hxs
    exact List.take_of_length_le (Nat.le_trans (length_intercalate_pySplit xs) hxs)
  obtain ⟨front, hfront⟩ := intercalate_pySplit_append cs
  rw [boundedText, boundedText, String.toList_ofList, String.toList_ofList, hcut _ hn, hcut _ hm,
    hfront ds hds hds', hfront es hes hes', String.ofList_inj] at h
  exact List.append_cancel_left h

end MineBot
