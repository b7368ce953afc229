import MineBot.SkillFormat

/-!
# Texts of a skill document

What stripping, collapsing white space, quoting and normalising line ends do to the
pieces of a canonical text, and where its closing mark is found.
-/

namespace MineBot

/-! ## White space -/

theorem toList_pyStrip (text : String) :
    (pyStrip text).toList = (text.toList.dropWhile isPySpace).rdropWhile isPySpace := by
  rw [pyStrip, String.toList_ofList]
  rfl

theorem filter_dropWhile {α : Type} (p : α → Bool) (l : List α) :
    (l.dropWhile p).filter (fun a => !p a) = l.filter fun a => !p a := by
  induction l with
  | nil => rfl
  | cons a l ih =>
      cases ha : p a with
      | true => rw [List.dropWhile_cons_of_pos ha, ih, List.filter_cons_of_neg (by simp [ha])]
      | false => rw [List.dropWhile_cons_of_neg (by simp [ha])]

/-- Stripping takes white space only. -/
theorem filter_pyStrip (text : String) :
    (pyStrip text).toList.filter (fun c => !isPySpace c) =
      text.toList.filter fun c => !isPySpace c := by
  rw [toList_pyStrip, List.rdropWhile, List.filter_reverse, filter_dropWhile, List.filter_reverse,
    List.reverse_reverse, filter_dropWhile]

/-- A text that is stripped begins and ends with no white space. -/
theorem strip_of_stripped {text : String} (h : pyStrip text = text) :
    text.toList.dropWhile isPySpace = text.toList ∧
      text.toList.rdropWhile isPySpace = text.toList := by
  have hlist := congrArg String.toList h
  rw [toList_pyStrip] at hlist
  have hleft : text.toList.dropWhile isPySpace = text.toList := by
    have hstart := (List.rdropWhile_prefix isPySpace (text.toList.dropWhile isPySpace)).length_le
    have hsuffix := (text.toList.dropWhile_suffix isPySpace)
    rw [hlist] at hstart
    exact hsuffix.eq_of_length (Nat.le_antisymm hsuffix.length_le hstart)
  rw [hleft] at hlist
  exact ⟨hleft, hlist⟩

/-- White space around a stripped text is stripped. -/
theorem pyStrip_pad {before after : List Char} {text : String} (h : pyStrip text = text)
    (hne : text ≠ "") (hbefore : ∀ c ∈ before, isPySpace c) (hafter : ∀ c ∈ after, isPySpace c) :
    pyStrip (.ofList (before ++ text.toList ++ after)) = text := by
  obtain ⟨hleft, hright⟩ := strip_of_stripped h
  have hnil : text.toList ≠ [] := fun hnil => hne (String.toList_eq_nil_iff.mp hnil)
  refine String.toList_inj.mp ?_
  rw [toList_pyStrip, String.toList_ofList, List.append_assoc, List.dropWhile_append_of_pos hbefore,
    List.dropWhile_append, hleft, if_neg (by simpa using hnil), List.rdropWhile, List.reverse_append,
    List.dropWhile_append_of_pos fun c hc => hafter c (List.mem_reverse.mp hc)]
  exact hright

/-! ## Words -/

theorem splitWords_word {w : List Char} (hw : ∀ c ∈ w, isPySpace c = false) (cs : List Char) :
    splitWords (w ++ cs) = (w ++ (splitWords cs).1, (splitWords cs).2) := by
  induction w with
  | nil => rfl
  | cons c w ih =>
      rw [List.forall_mem_cons] at hw
      rw [List.cons_append, splitWords, ih hw.2]
      simp [hw.1]

theorem splitWords_space (cs : List Char) : splitWords (' ' :: cs) = ([], pySplit cs) := rfl

/-- A word is not empty and has no white space in it. -/
def IsWord (w : List Char) : Prop := w ≠ [] ∧ ∀ c ∈ w, isPySpace c = false

theorem isWord_splitWords (cs : List Char) :
    (∀ c ∈ (splitWords cs).1, isPySpace c = false) ∧ ∀ w ∈ (splitWords cs).2, IsWord w := by
  induction cs with
  | nil => exact ⟨fun c hc => (by cases hc), fun w hw => (by cases hw)⟩
  | cons c cs ih =>
      cases hc : isPySpace c with
      | true =>
          simp only [splitWords, hc, if_true]
          refine ⟨fun d hd => (by cases hd), fun w hw => ?_⟩
          split at hw
          · exact ih.2 w hw
          · next hne =>
              rcases List.mem_cons.mp hw with rfl | hw
              · exact ⟨fun hnil => hne (by rw [hnil]; rfl), ih.1⟩
              · exact ih.2 w hw
      | false =>
          simp only [splitWords, hc, Bool.false_eq_true, if_false]
          exact ⟨List.forall_mem_cons.mpr ⟨hc, ih.1⟩, ih.2⟩

theorem isWord_pySplit {cs w : List Char} (h : w ∈ pySplit cs) : IsWord w := by
  obtain ⟨hfirst, hrest⟩ := isWord_splitWords cs
  simp only [pySplit] at h
  split at h
  · exact hrest w h
  · next hne =>
      rcases List.mem_cons.mp h with rfl | h
      · exact ⟨fun hnil => hne (by rw [hnil]; rfl), hfirst⟩
      · exact hrest w h

/-- Words with a blank between them are split again. -/
theorem pySplit_intercalate {ws : List (List Char)} (h : ∀ w ∈ ws, IsWord w) :
    pySplit ([' '].intercalate ws) = ws := by
  induction ws with
  | nil => rfl
  | cons w ws ih =>
      obtain ⟨hw, hws⟩ := List.forall_mem_cons.mp h
      have hne : w.isEmpty = false := by simpa using hw.1
      cases ws with
      | nil =>
          have hsplit := splitWords_word hw.2 []
          rw [List.append_nil] at hsplit
          simp [pySplit, hsplit, splitWords, hw.1]
      | cons w' ws =>
          rw [List.intercalate_cons_cons, List.append_assoc]
          have hsplit := splitWords_word hw.2 ([' '] ++ [' '].intercalate (w' :: ws))
          rw [List.singleton_append, splitWords_space, ih hws, List.append_nil] at hsplit
          rw [pySplit, List.singleton_append, hsplit]
          simp [hw.1]

namespace SkillFormat

theorem joinWords_joinWords (text : String) : joinWords (joinWords text) = joinWords text := by
  rw [joinWords, joinWords, String.toList_ofList, pySplit_intercalate fun w hw => isWord_pySplit hw]

/-- The only white space of collapsed text is a blank. -/
theorem mem_joinWords {text : String} {c : Char} (h : c ∈ (joinWords text).toList) :
    c = ' ' ∨ isPySpace c = false := by
  rw [joinWords, String.toList_ofList] at h
  generalize hws : pySplit text.toList = ws at h
  have hword : ∀ w ∈ ws, IsWord w := fun w hw => isWord_pySplit (hws ▸ hw)
  clear hws
  induction ws with
  | nil => cases h
  | cons w ws ih =>
      obtain ⟨hw, hrest⟩ := List.forall_mem_cons.mp hword
      cases ws with
      | nil =>
          rw [List.intercalate_singleton] at h
          exact .inr (hw.2 c h)
      | cons w' ws =>
          rw [List.intercalate_cons_cons, List.append_assoc, List.mem_append, List.mem_append,
            List.mem_singleton] at h
          rcases h with h | h | h
          · exact .inr (hw.2 c h)
          · exact .inl h
          · exact ih h hrest

/-! ## Line ends -/

theorem newlines_of_not_mem {cs : List Char} (h : '\r' ∉ cs) : newlines cs = cs := by
  induction cs with
  | nil => rfl
  | cons c cs ih =>
      rw [List.mem_cons, not_or] at h
      have hc : c ≠ '\r' := fun heq => h.1 heq.symm
      unfold newlines
      split
      · next heq => cases heq
      · next heq => exact absurd (List.cons.inj heq).1 hc
      · next heq =>
          obtain ⟨rfl, rfl⟩ := List.cons.inj heq
          rw [if_neg hc, ih h.2]

/-- Pieces are normalised one by one where none ends with a carriage return. -/
theorem newlines_append {xs ys : List Char} (h : xs.getLast? ≠ some '\r') :
    newlines (xs ++ ys) = newlines xs ++ newlines ys := by
  induction xs using newlines.induct with
  | case1 => rfl
  | case2 cs ih =>
      have hlast : cs.getLast? ≠ some '\r' := by
        intro hlast
        cases cs with
        | nil => cases hlast
        | cons c cs => exact h (by rw [List.getLast?_cons_cons, List.getLast?_cons_cons, hlast])
      rw [List.cons_append, List.cons_append, newlines, newlines, ih hlast, List.cons_append]
  | case3 c cs hpair ih =>
      have hlast : cs.getLast? ≠ some '\r' := by
        intro hlast
        cases cs with
        | nil => cases hlast
        | cons d cs => exact h (by rw [List.getLast?_cons_cons, hlast])
      rw [List.cons_append, newlines, newlines, ih hlast, List.cons_append]
      · exact hpair
      · intro ds hc hds
        cases cs with
        | nil => exact h (by rw [hc]; rfl)
        | cons d cs =>
            obtain ⟨rfl, -⟩ := List.cons.inj hds
            exact hpair cs hc rfl

/-! ## Quoted text -/

theorem toList_quoteText (text : String) : (Responses.quoteText text).toList =
    '"' :: (text.toList.flatMap fun c => (Responses.quoteChar c).toList) ++ ['"'] := by
  rw [Responses.quoteText, String.toList_append, String.toList_append, String.toList_join,
    List.flatMap_map]
  rfl

theorem digitChar_ne {n : Nat} {c : Char} (hn : n < 16) (hc : c = '\n' ∨ c = '\r') :
    Nat.digitChar n ≠ c := by
  rcases hc with rfl | rfl <;> decide +revert

/-- A character is quoted on one line. -/
theorem not_mem_quoteChar {c d : Char} (hd : d = '\n' ∨ d = '\r') :
    d ∉ (Responses.quoteChar c).toList := by
  unfold Responses.quoteChar
  split
  · rcases hd with rfl | rfl <;> decide
  · split
    · rcases hd with rfl | rfl <;> decide
    · split
      · rcases hd with rfl | rfl <;> decide
      · next hn =>
          split
          · rcases hd with rfl | rfl <;> decide
          · next hr =>
              split
              · rcases hd with rfl | rfl <;> decide
              · split
                · rcases hd with rfl | rfl <;> decide
                · split
                  · rcases hd with rfl | rfl <;> decide
                  · split
                    · next hlt =>
                        have hpre : d ∉ "\\u00".toList := by rcases hd with rfl | rfl <;> decide
                        rw [String.toList_append, List.mem_append]
                        intro hmem
                        rcases hmem with hmem | hmem
                        · exact hpre hmem
                        · rw [String.toList_ofList] at hmem
                          rcases List.mem_pair.mp hmem with heq | heq
                          · exact digitChar_ne (by omega) hd heq.symm
                          · exact digitChar_ne (by omega) hd heq.symm
                    · rw [String.toList_singleton, List.mem_singleton]
                      rcases hd with rfl | rfl
                      · exact fun heq => hn heq.symm
                      · exact fun heq => hr heq.symm

theorem not_mem_quoteText {text : String} {d : Char} (hd : d = '\n' ∨ d = '\r') :
    d ∉ (Responses.quoteText text).toList := by
  rw [toList_quoteText]
  intro hmem
  have hquote : d ≠ '"' := by rcases hd with rfl | rfl <;> decide
  rcases List.mem_append.mp hmem with hmem | hmem
  · rcases List.mem_cons.mp hmem with heq | hmem
    · exact hquote heq
    · obtain ⟨c, -, hmem⟩ := List.mem_flatMap.mp hmem
      exact not_mem_quoteChar hd hmem
  · exact hquote (List.mem_singleton.mp hmem)

/-- What the reader of PyYAML lets through. -/
def isPrintable (c : Char) : Bool :=
  let n := c.toNat
  n == 9 || n == 10 || n == 13 || (32 ≤ n && n ≤ 126) || n == 0x85 || (0xa0 ≤ n && n ≤ 0xd7ff)
    || (0xe000 ≤ n && n ≤ 0xfffd) || 0x10000 ≤ n

/-- An unprintable character that is no control character is written as it is. -/
theorem mem_quoteText {text : String} {c : Char} (hmem : c ∈ text.toList) (hc : 32 ≤ c.toNat)
    (hprint : isPrintable c = false) : c ∈ (Responses.quoteText text).toList := by
  have hne : ∀ d : Char, isPrintable d = true → c ≠ d := by
    rintro d hd rfl
    rw [hprint] at hd
    cases hd
  have hquote : Responses.quoteChar c = String.singleton c := by
    unfold Responses.quoteChar
    rw [if_neg (hne _ (by decide)), if_neg (hne _ (by decide)), if_neg (hne _ (by decide)),
      if_neg (hne _ (by decide)), if_neg (hne _ (by decide)), if_neg (by omega), if_neg (by omega),
      if_neg (by omega)]
  rw [toList_quoteText]
  refine List.mem_append_left _ (List.mem_cons_of_mem _ (List.mem_flatMap.mpr ⟨c, hmem, ?_⟩))
  rw [hquote, String.toList_singleton]
  exact List.mem_singleton_self c

/-! ## The closing mark -/

section

variable {mark cs before after : List Char}

theorem splitAtMark_eq (h : splitAtMark mark cs = some (before, after)) :
    cs = before ++ mark ++ after := by
  induction cs generalizing before with
  | nil =>
      unfold splitAtMark at h
      split at h
      · next hmark =>
          obtain ⟨rfl, rfl⟩ := Prod.mk.inj (Option.some.inj h)
          rw [hmark]
          rfl
      · cases h
  | cons c cs ih =>
      unfold splitAtMark at h
      split at h
      · next hstart =>
          obtain ⟨rest, hrest⟩ := List.isPrefixOf_iff_prefix.mp hstart
          obtain ⟨rfl, rfl⟩ := Prod.mk.inj (Option.some.inj h)
          rw [← hrest, List.drop_left, List.nil_append]
      · obtain ⟨⟨before', after'⟩, heq, hsplit⟩ := Option.map_eq_some_iff.mp h
        obtain ⟨rfl, rfl⟩ := Prod.mk.inj hsplit
        rw [ih heq]
        rfl

/-- The first mark is found. -/
theorem exists_splitAtMark (before after : List Char) (hmark : mark ≠ []) :
    ∃ before' after', splitAtMark mark (before ++ mark ++ after) = some (before', after') ∧
      before'.length ≤ before.length := by
  induction before with
  | nil =>
      obtain ⟨c, cs, rfl⟩ := List.exists_cons_of_ne_nil hmark
      refine ⟨[], after, ?_, Nat.le_refl _⟩
      rw [List.nil_append, List.cons_append, splitAtMark, if_pos, ← List.cons_append, List.drop_left]
      exact List.isPrefixOf_iff_prefix.mpr ⟨after, rfl⟩
  | cons c before ih =>
      obtain ⟨before', after', heq, hle⟩ := ih
      rw [List.cons_append, List.cons_append, splitAtMark]
      split
      · exact ⟨[], _, rfl, Nat.zero_le _⟩
      · exact ⟨c :: before', after', by rw [heq]; rfl, Nat.succ_le_succ hle⟩

/-- No mark is found before the one that follows. -/
def Unbroken (mark before : List Char) : Prop := splitAtMark mark (before ++ mark) = some (before, [])

theorem split_of_unbroken (h : Unbroken mark before) (hmark : mark ≠ []) (after : List Char) :
    splitAtMark mark (before ++ mark ++ after) = some (before, after) := by
  obtain ⟨before', after', heq, hle⟩ := exists_splitAtMark before after hmark
  have hsplit := splitAtMark_eq heq
  rcases Nat.lt_or_ge before'.length before.length with hlt | hge
  · -- then it would have been found without what follows
    exfalso
    have hpre : before' ++ mark <+: before ++ mark := by
      refine @List.prefix_of_prefix_length_le _ _ _ (before ++ mark ++ after) ?_ ?_ ?_
      · exact ⟨after', hsplit.symm⟩
      · exact ⟨after, rfl⟩
      · simp only [List.length_append]
        omega
    obtain ⟨rest, hrest⟩ := hpre
    obtain ⟨before'', after'', heq', hle'⟩ := exists_splitAtMark before' rest hmark
    rw [hrest, h] at heq'
    obtain ⟨rfl, -⟩ := Prod.mk.inj (Option.some.inj heq')
    omega
  · have hlen : before'.length = before.length := Nat.le_antisymm hle hge
    rw [List.append_assoc, List.append_assoc] at hsplit
    obtain ⟨rfl, hrest⟩ := List.append_inj hsplit hlen.symm
    rw [heq, List.append_cancel_left hrest]

/-- A mark that is found early leaves more behind it. -/
theorem early_of_broken (h : ¬ Unbroken mark before) (hmark : mark ≠ []) (after : List Char) :
    ∃ before' after', splitAtMark mark (before ++ mark ++ after) = some (before', after') ∧
      before'.length < before.length := by
  obtain ⟨before', after', heq, hle⟩ := exists_splitAtMark before [] hmark
  rw [List.append_nil] at heq
  have hsplit := splitAtMark_eq heq
  have hlt : before'.length < before.length := by
    refine Nat.lt_of_le_of_ne hle fun hlen => h ?_
    rw [List.append_assoc] at hsplit
    obtain ⟨rfl, hrest⟩ := List.append_inj hsplit hlen.symm
    have hnil := List.append_cancel_left ((List.append_nil mark).trans hrest)
    rw [Unbroken, heq, ← hnil]
  obtain ⟨before'', after'', heq', hle'⟩ := exists_splitAtMark before' (after' ++ after) hmark
  refine ⟨before'', after'', ?_, Nat.lt_of_le_of_lt hle' hlt⟩
  rw [hsplit, List.append_assoc, heq']

end

end SkillFormat

end MineBot
