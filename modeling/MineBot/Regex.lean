import Mathlib

/-!
# Regular expressions

A backtracking matcher in the manner of Python's `re`. A pattern stands at a
cursor - the character before it and the text that follows - and gives the
cursors at which a match may end, the preferred one first.
-/

namespace MineBot

structure Cursor where
  before : Option Char
  rest : List Char

inductive Regex where
  | empty
  /-- one character of a class -/
  | char (accepts : Char → Bool)
  | seq (first second : Regex)
  | alt (first second : Regex)
  /-- up to `bound` times, as often as it can be -/
  | upTo (bound : Nat) (item : Regex)
  /-- any number of times; the item does not match the empty text -/
  | many (item : Regex)
  /-- nothing is consumed: `^` and `\b` -/
  | check (holds : Cursor → Bool)

namespace Regex

/-- `item` up to `bound` times, the longest first. -/
def repeated (item : Cursor → List Cursor) : Nat → Cursor → List Cursor
  | 0, s => [s]
  | bound + 1, s => (item s).flatMap (repeated item bound) ++ [s]

/-- Where a match that begins at the cursor may end. -/
def ends : Regex → Cursor → List Cursor
  | .empty, s => [s]
  | .char accepts, s =>
      match s.rest with
      | [] => []
      | c :: cs => if accepts c then [⟨some c, cs⟩] else []
  | .seq first second, s => (first.ends s).flatMap second.ends
  | .alt first second, s => first.ends s ++ second.ends s
  | .upTo bound item, s => repeated item.ends bound s
  | .many item, s => repeated item.ends s.rest.length s
  | .check holds, s => if holds s then [s] else []

/-! ## Patterns -/

def lit (c : Char) : Regex := .char (· = c)

/-- The characters of a text, each by its class. -/
def text (letter : Char → Regex) (cs : List Char) : Regex :=
  cs.foldr (fun c r => .seq (letter c) r) .empty

def oneOf (rs : List Regex) : Regex :=
  match rs with
  | [] => .char fun _ => false
  | [r] => r
  | r :: rs => .alt r (oneOf rs)

/-- `r+` -/
def plus (r : Regex) : Regex := .seq r (.many r)

/-- `r?` -/
def opt (r : Regex) : Regex := .upTo 1 r

/-- `r` exactly `n` times. -/
def times (n : Nat) (r : Regex) : Regex := (List.replicate n r).foldr .seq .empty

/-- All of `rs`, one after the other. -/
def chain (rs : List Regex) : Regex := rs.foldr .seq .empty

/-! ## Matching -/

/-- `re.fullmatch` -/
def fullmatch (r : Regex) (cs : List Char) : Bool :=
  (r.ends ⟨none, cs⟩).any fun s => s.rest.isEmpty

/-- `re.search` from a cursor on. -/
def searchFrom (r : Regex) (before : Option Char) : List Char → Bool
  | [] => !(r.ends ⟨before, []⟩).isEmpty
  | c :: cs => !(r.ends ⟨before, c :: cs⟩).isEmpty || r.searchFrom (some c) cs

/-- `re.search` -/
def search (r : Regex) (cs : List Char) : Bool := r.searchFrom none cs

/-- `match.start()` of every match of `re.finditer`, for a pattern that does not match
the empty text; `skip` characters belong to the match before. -/
def startsFrom (r : Regex) (start skip : Nat) (before : Option Char) : List Char → List Nat
  | [] => []
  | c :: cs =>
      match skip with
      | skip + 1 => r.startsFrom (start + 1) skip (some c) cs
      | 0 =>
          match (r.ends ⟨before, c :: cs⟩).head? with
          | some s =>
              start :: r.startsFrom (start + 1) (cs.length - s.rest.length) (some c) cs
          | none => r.startsFrom (start + 1) 0 (some c) cs

def starts (r : Regex) (cs : List Char) : List Nat := r.startsFrom 0 0 none cs

/-! ## The characters of a match -/

/-- Every character that the pattern consumes is one of `P`. -/
def Within (P : Char → Prop) : Regex → Prop
  | .empty | .check _ => True
  | .char accepts => ∀ c, accepts c → P c
  | .seq first second | .alt first second => first.Within P ∧ second.Within P
  | .upTo _ item | .many item => item.Within P

/-- What lies between two cursors. -/
def Consumes (P : Char → Prop) (s t : Cursor) : Prop :=
  ∃ cs, s.rest = cs ++ t.rest ∧ ∀ c ∈ cs, P c

variable {P : Char → Prop} {s t u : Cursor}

theorem Consumes.refl (s : Cursor) : Consumes P s s := ⟨[], rfl, fun c hc => by cases hc⟩

theorem Consumes.trans (h : Consumes P s t) (h' : Consumes P t u) : Consumes P s u := by
  obtain ⟨cs, hcs, hP⟩ := h
  obtain ⟨ds, hds, hP'⟩ := h'
  refine ⟨cs ++ ds, by rw [hcs, hds, List.append_assoc], fun c hc => ?_⟩
  exact (List.mem_append.mp hc).elim (hP c) (hP' c)

theorem consumes_repeated {item : Cursor → List Cursor}
    (h : ∀ s t, t ∈ item s → Consumes P s t) (bound : Nat) (ht : t ∈ repeated item bound s) :
    Consumes P s t := by
  induction bound generalizing s with
  | zero =>
      rw [List.mem_singleton.mp ht]
      exact .refl s
  | succ bound ih =>
      rcases List.mem_append.mp ht with ht | ht
      · obtain ⟨u, hu, ht⟩ := List.mem_flatMap.mp ht
        exact (h s u hu).trans (ih ht)
      · rw [List.mem_singleton.mp ht]
        exact .refl s

theorem consumes_ends {r : Regex} (h : r.Within P) (ht : t ∈ r.ends s) : Consumes P s t := by
  induction r generalizing s t with
  | empty =>
      rw [List.mem_singleton.mp ht]
      exact .refl s
  | char accepts =>
      unfold ends at ht
      split at ht
      · cases ht
      · next c cs hrest =>
          split at ht
          · next hc =>
              rw [List.mem_singleton.mp ht]
              refine ⟨[c], hrest, fun d hd => ?_⟩
              rw [List.mem_singleton.mp hd]
              exact h c hc
          · cases ht
  | seq first second ih ih' =>
      obtain ⟨u, hu, ht⟩ := List.mem_flatMap.mp ht
      exact (ih h.1 hu).trans (ih' h.2 ht)
  | alt first second ih ih' =>
      rcases List.mem_append.mp ht with ht | ht
      · exact ih h.1 ht
      · exact ih' h.2 ht
  | upTo bound item ih => exact consumes_repeated (fun _ _ => ih h) bound ht
  | many item ih => exact consumes_repeated (fun _ _ => ih h) _ ht
  | check holds =>
      unfold ends at ht
      split at ht
      · rw [List.mem_singleton.mp ht]
        exact .refl s
      · cases ht

/-- A text that matches as a whole is made of characters of the pattern. -/
theorem mem_of_fullmatch {r : Regex} (h : r.Within P) {cs : List Char} (hcs : r.fullmatch cs) :
    ∀ c ∈ cs, P c := by
  obtain ⟨t, ht, hrest⟩ := List.any_eq_true.mp hcs
  obtain ⟨ds, hds, hP⟩ := consumes_ends h ht
  rw [List.isEmpty_iff.mp hrest, List.append_nil] at hds
  have heq : cs = ds := hds
  exact heq ▸ hP

end Regex

end MineBot
