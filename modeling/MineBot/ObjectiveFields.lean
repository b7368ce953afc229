import Mathlib
import MineBot.ObjectiveMeaning

/-!
# Fields of an objective

A text is split at the colons it was joined with, as long as no field has one
itself; an integer is read back within 32 bits; `int` and `float` change no
coordinate that is whole or positive and no radius that fits; a name has
none of the other separators.
-/

namespace MineBot

namespace Objective

open Double

/-! ## Fields -/

section Fields

theorem split_join {separator : Char} {fields : List String} (hne : fields ≠ [])
    (h : ∀ f ∈ fields, separator ∉ f.toList) :
    split separator ((String.singleton separator).intercalate fields) = fields := by
  have hlists : ∀ cs ∈ fields.map String.toList, separator ∉ cs := by
    intro cs hcs
    obtain ⟨f, hf, rfl⟩ := List.mem_map.mp hcs
    exact h f hf
  rw [split, String.toList_intercalate, String.toList_singleton,
    List.splitOn_intercalate _ hlists (by simpa using hne), List.map_map]
  simp

theorem split_record {fields : List String} (hne : fields ≠ [])
    (h : ∀ f ∈ fields, ':' ∉ f.toList) : split ':' (record fields) = fields :=
  split_join hne h

/-- A part of a split list has no separator, and is of the list. -/
theorem of_mem_splitOn {separator : Char} {cs ds : List Char} (h : ds ∈ cs.splitOn separator) :
    separator ∉ ds ∧ ds ⊆ cs := by
  induction cs generalizing ds with
  | nil =>
      rw [List.splitOn_nil, List.mem_singleton] at h
      rw [h]
      exact ⟨List.not_mem_nil, List.nil_subset _⟩
  | cons c cs ih =>
      rw [List.splitOn_cons_eq_if_modifyHead] at h
      split at h
      · rcases List.mem_cons.mp h with rfl | h
        · exact ⟨List.not_mem_nil, List.nil_subset _⟩
        · exact ⟨(ih h).1, List.subset_cons_of_subset c (ih h).2⟩
      · next hc =>
          obtain ⟨first, rest, hsplit⟩ := List.exists_cons_of_ne_nil (List.splitOn_ne_nil separator cs)
          rw [hsplit, List.modifyHead_cons] at h
          rcases List.mem_cons.mp h with rfl | h
          · obtain ⟨hnot, hsub⟩ := ih (hsplit ▸ List.mem_cons_self)
            refine ⟨fun hmem => ?_, List.cons_subset_cons c hsub⟩
            rcases List.mem_cons.mp hmem with heq | hmem
            · exact hc (beq_iff_eq.mpr heq.symm)
            · exact hnot hmem
          · obtain ⟨hnot, hsub⟩ := ih (hsplit ▸ List.mem_cons_of_mem _ h)
            exact ⟨hnot, List.subset_cons_of_subset c hsub⟩

/-- No field of a split text has the separator, and none has a character
that the text does not have. -/
theorem of_mem_split {separator : Char} {text f : String} (h : f ∈ split separator text) :
    separator ∉ f.toList ∧ f.toList ⊆ text.toList := by
  obtain ⟨cs, hcs, rfl⟩ := List.mem_map.mp h
  rw [String.toList_ofList]
  exact of_mem_splitOn hcs

end Fields

/-! ## Integers -/

section Integers

theorem toList_toString_int (n : Int) : (toString n).toList
    = (if n < 0 then ['-'] else []) ++ Nat.toDigits 10 n.natAbs := by
  cases n with
  | ofNat n =>
      show (Nat.repr n).toList = _
      simp [Nat.repr]
  | negSucc n =>
      show ("-" ++ Nat.repr (n + 1)).toList = _
      simp [Nat.repr, Int.negSucc_lt_zero]

theorem readSigned_toString (n : Int) : readSigned (toString n).toList = some n := by
  rw [toList_toString_int]
  split
  · next hneg =>
      rw [List.singleton_append, readSigned, readDigits_toDigits, Option.map_some]
      congr 1
      omega
  · next hpos =>
      have hread := readDigits_toDigits n.natAbs
      have hdigits := isDigit_toDigits n.natAbs
      rw [List.nil_append]
      generalize Nat.toDigits 10 n.natAbs = ds at hread hdigits
      have hsigned : readSigned ds = (readDigits ds).map fun n : Nat => (n : Int) := by
        unfold readSigned
        split
        · exact absurd (hdigits '-' List.mem_cons_self) (by decide)
        · exact absurd (hdigits '+' List.mem_cons_self) (by decide)
        · rfl
      rw [hsigned, hread, Option.map_some]
      congr 1
      omega

theorem parseInt_toString (n : Int) :
    parseInt (toString n) = if IsInt32 n then .ok n else .error .numberFormat := by
  rw [parseInt, readSigned_toString]

theorem parseInt_of_isInt32 {n : Int} (h : IsInt32 n) : parseInt (toString n) = .ok n := by
  rw [parseInt_toString, if_pos h]

theorem parseInt_of_not_isInt32 {n : Int} (h : ¬ IsInt32 n) :
    parseInt (toString n) = .error .numberFormat := by
  rw [parseInt_toString, if_neg h]

/-- A number has neither of the separators. -/
theorem not_mem_toString {c : Char} (n : Int) (hc : c.isDigit = false) (hsign : c ≠ '-') :
    c ∉ (toString n).toList := by
  rw [toList_toString_int]
  intro hmem
  rcases List.mem_append.mp hmem with hmem | hmem
  · split at hmem
    · exact hsign (List.mem_singleton.mp hmem)
    · cases hmem
  · rw [isDigit_toDigits _ _ hmem] at hc
    cases hc

theorem not_mem_floatText {c : Char} (q : ℚ) (hc : ¬ IsNumberChar c) : c ∉ (floatText q).toList := by
  rw [floatText, String.toList_ofList]
  intro hmem
  exact hc (isNumberChar_text _ c hmem)

end Integers

/-! ## Coordinates -/

section Coordinates

theorem eq_floor_iff_dvd (q : ℚ) : q = ⌊q⌋ ↔ (q.den : Int) ∣ q.num := by
  constructor
  · intro h
    rw [h, Rat.num_intCast, Rat.den_intCast]
    exact one_dvd _
  · rintro ⟨k, hk⟩
    have hq : q = k := by
      rw [← Rat.num_div_den q, hk]
      push_cast
      field_simp
    rw [hq, Int.floor_intCast]

/-- `int` rounds up what is negative and not whole. -/
theorem trunc_eq (q : ℚ) : trunc q = if q.num ≥ 0 ∨ (q.den : Int) ∣ q.num then ⌊q⌋ else ⌊q⌋ + 1 := by
  have hden : (q.den : Int).sign = 1 := Int.sign_eq_one_of_pos (by exact_mod_cast q.den_pos)
  have hfloor : ⌊q⌋ = q.num / q.den := Rat.floor_def q
  rw [trunc, Int.tdiv_eq_ediv, hden, hfloor]
  split
  · rw [add_zero]
  · rfl

theorem whole_iff (q : ℚ) : Whole q ↔ q.num ≥ 0 ∨ (q.den : Int) ∣ q.num := by
  rw [Whole, eq_floor_iff_dvd, ge_iff_le, Rat.num_nonneg]

theorem trunc_eq_floor_iff (q : ℚ) : trunc q = ⌊q⌋ ↔ Whole q := by
  rw [trunc_eq, whole_iff]
  split
  · next h => exact ⟨fun _ => h, fun _ => rfl⟩
  · next h => exact ⟨fun heq => by omega, fun hw => absurd hw h⟩

/-- Within the 32-bit range `int` does not leave it. -/
theorem isInt32_trunc {q : ℚ} (h : InRange q) : IsInt32 (trunc q) := by
  have hlow : -2 ^ 31 ≤ ⌊q⌋ := Int.le_floor.mpr (by exact_mod_cast h.1)
  have hhigh : ⌊q⌋ < 2 ^ 31 := Int.floor_lt.mpr (by exact_mod_cast h.2)
  rw [trunc_eq]
  split
  · exact ⟨hlow, hhigh⟩
  · next hneg =>
      have hnum : q < 0 := by
        rw [← Rat.num_neg]
        omega
      have hfloor : ⌊q⌋ < 0 := Int.floor_lt.mpr (by exact_mod_cast hnum)
      exact ⟨by omega, by omega⟩

end Coordinates

/-! ## Distances -/

section Distances

/-- A radius within 32 bits survives the conversion to a float, and a radius
beyond them stays there. -/
theorem radius_nearest {q x : ℚ} (h : nearest q = some x) (hq : IsDouble q ∨ q ≤ 0 ∨ 2 ^ 53 ≤ q) :
    radius x = radius q ∨ 2 ^ 31 ≤ radius x ∧ 2 ^ 31 ≤ radius q := by
  rcases hq with hdouble | hneg | hbig
  · rw [nearest_of_isDouble hdouble] at h
    rw [Option.some.inj h]
    exact .inl rfl
  · have hx := nearest_nonpos hneg h
    have hfloor : ∀ y : ℚ, y ≤ 0 → radius y = 0 := by
      intro y hy
      have : ⌊y⌋ ≤ 0 := by exact_mod_cast Int.floor_mono hy
      exact max_eq_left this
    rw [hfloor x hx, hfloor q hneg]
    exact .inl rfl
  · have hx := le_nearest hbig h
    have hfloor : ∀ y : ℚ, 2 ^ 53 ≤ y → 2 ^ 31 ≤ radius y := by
      intro y hy
      have : (2 ^ 31 : Int) ≤ ⌊y⌋ := Int.le_floor.mpr (le_trans (by norm_num) hy)
      exact le_max_of_le_right this
    exact .inr ⟨hfloor x hx, hfloor q hbig⟩

theorem isDouble_or_big (n : Int) : IsDouble n ∨ (n : ℚ) ≤ 0 ∨ 2 ^ 53 ≤ (n : ℚ) := by
  by_cases hn : n.natAbs < 2 ^ 53
  · exact .inl (isDouble_intCast hn)
  · rcases le_total n 0 with h | h
    · exact .inr (.inl (by exact_mod_cast h))
    · exact .inr (.inr (by exact_mod_cast (by omega : (2 ^ 53 : Int) ≤ n)))

/-- What is written for the radius of a goal. -/
theorem radius_toFloat {n : Number} {x : ℚ} (h : n.toFloat = some x) :
    radius x = n.radius ∨ 2 ^ 31 ≤ radius x ∧ 2 ^ 31 ≤ n.radius := by
  cases n with
  | int n => exact radius_nearest h (isDouble_or_big n)
  | float q =>
      rw [Option.some.inj h]
      exact .inl rfl

/-- One less than a double is one too, unless it is far beyond 32 bits. -/
theorem isDouble_sub_one {q : ℚ} (h : IsDouble q) (hq : 0 ≤ q) :
    IsDouble (q - 1) ∨ q - 1 ≤ 0 ∨ 2 ^ 53 ≤ q - 1 := by
  rcases le_or_gt q 1 with hle | hlt
  · exact .inr (.inl (by linarith))
  · obtain ⟨m, e, hm, hlow, hhigh, rfl⟩ := h
    rcases le_or_gt e 0 with he | he
    · -- the last place of the double divides one
      obtain ⟨k, hk⟩ := Int.eq_ofNat_of_zero_le (by omega : 0 ≤ -e)
      have he' : e = -(k : Int) := by omega
      have hone : (m : ℚ) * 2 ^ e - 1 = ((m - 2 ^ k : Int) : ℚ) * 2 ^ e := by
        rw [he', zpow_neg, zpow_natCast]
        push_cast
        field_simp
      have hpow : (2 : Int) ^ k ≤ m := by
        have hlt' : ((2 ^ k : Int) : ℚ) < m := by
          rw [he', zpow_neg, zpow_natCast, ← div_eq_mul_inv, lt_div_iff₀ (by positivity)] at hlt
          push_cast
          linarith
        exact (Int.cast_lt.mp hlt').le
      have hpos : (0 : Int) < 2 ^ k := by positivity
      exact .inl ⟨m - 2 ^ k, e, by omega, hlow, hhigh, hone⟩
    · -- the double is an integer
      obtain ⟨k, rfl⟩ := Int.eq_ofNat_of_zero_le he.le
      have hint : (m : ℚ) * 2 ^ (k : Int) - 1 = ((m * 2 ^ k - 1 : Int) : ℚ) := by
        push_cast
        rw [zpow_natCast]
      rw [hint]
      exact isDouble_or_big _

theorem radius_rounded {q : ℚ} (h : IsDouble q) (hq : 0 ≤ q) :
    radius (rounded (q - 1)) = radius (q - 1) ∨
      2 ^ 31 ≤ radius (rounded (q - 1)) ∧ 2 ^ 31 ≤ radius (q - 1) := by
  rw [rounded]
  cases hn : nearest (q - 1) with
  | none => exact .inl rfl
  | some x => exact radius_nearest hn (isDouble_sub_one h hq)

end Distances

/-! ## Names -/

section Names

variable {name : String} {c : Char}

def IsNameChar (c : Char) : Prop := c.isAlphanum = true ∨ c ∈ ['_', '-', '.', '/', ':']

theorem IsNameChar.range (h : IsNameChar c) : 45 ≤ c.toNat ∧ c.toNat ≤ 122 := by
  rcases h with h | h
  · simp only [Char.isAlphanum, Char.isAlpha, Char.isUpper, Char.isLower, Char.isDigit,
      Bool.or_eq_true, Bool.and_eq_true, decide_eq_true_eq, UInt32.le_iff_toNat_le, ge_iff_le] at h
    change (((65 ≤ c.toNat ∧ c.toNat ≤ 90) ∨ (97 ≤ c.toNat ∧ c.toNat ≤ 122)) ∨
      (48 ≤ c.toNat ∧ c.toNat ≤ 57)) at h
    omega
  · have hlist : ∀ c ∈ ['_', '-', '.', '/', ':'], 45 ≤ c.toNat ∧ c.toNat ≤ 122 := by
      simp
    exact hlist c h

theorem IsNameChar.not_space (h : IsNameChar c) : isPySpace c = false := by
  have hrange := h.range
  simp only [isPySpace, Bool.or_eq_false_iff, Bool.and_eq_false_iff, decide_eq_false_iff_not,
    beq_eq_false_iff_ne]
  omega

/-- Neither a comma nor a bar is part of a name. -/
theorem IsNameChar.ne (h : IsNameChar c) {x : Char} (hx : x.toNat < 45 ∨ 122 < x.toNat) : c ≠ x := by
  rintro rfl
  have hrange := h.range
  omega

theorem isNameChar_lower (h : c.isLower = true ∨ c.isDigit = true ∨ c ∈ ['_', '-', '.', '/']) :
    IsNameChar c := by
  rcases h with h | h | h
  · exact .inl (by simp [Char.isAlphanum, Char.isAlpha, h])
  · exact .inl (by simp [Char.isAlphanum, h])
  · exact .inr (List.mem_append_left [':'] h)

theorem IsName.chars (h : IsName name) : ∀ c ∈ name.toList, IsNameChar c := by
  intro c hc
  rcases h with (⟨-, hpath⟩ | ⟨ns, path, heq, ⟨-, hns⟩, -, hpath⟩) | ⟨-, hplayer⟩
  · exact isNameChar_lower (hpath c hc)
  · rw [heq] at hc
    rcases List.mem_append.mp hc with hc | hc
    · refine isNameChar_lower ((hns c hc).imp_right fun h => h.imp_right fun h => ?_)
      exact List.mem_append_left ['/'] h
    · rcases List.mem_cons.mp hc with rfl | hc
      · exact .inr (by decide)
      · exact isNameChar_lower (hpath c hc)
  · rcases hplayer c hc with h | rfl
    · exact .inl h
    · exact .inr (by decide)

/-- A name does not end in a colon. -/
theorem IsName.last (h : IsName name) : ∃ start c, name.toList = start ++ [c] ∧ c ≠ ':' := by
  have hlast : ∀ cs : List Char, cs ≠ [] → (∀ c ∈ cs, c ≠ ':') →
      ∃ start c, cs = start ++ [c] ∧ c ≠ ':' := by
    intro cs hne hcs
    exact ⟨cs.dropLast, cs.getLast hne, (List.dropLast_append_getLast hne).symm,
      hcs _ (List.getLast_mem hne)⟩
  have hpathChar : ∀ c : Char, (c.isLower = true ∨ c.isDigit = true ∨ c ∈ ['_', '-', '.', '/']) →
      c ≠ ':' := by
    rintro c h rfl
    revert h
    decide
  rcases h with (⟨hne, hpath⟩ | ⟨ns, path, heq, -, hne, hpath⟩) | ⟨hne, hplayer⟩
  · exact hlast _ hne fun c hc => hpathChar c (hpath c hc)
  · obtain ⟨start, c, hpatheq, hc⟩ := hlast path hne fun c hc => hpathChar c (hpath c hc)
    exact ⟨ns ++ ':' :: start, c, by rw [heq, hpatheq]; simp, hc⟩
  · refine hlast _ (by simpa using hne) ?_
    rintro c hc rfl
    revert hplayer
    exact fun hplayer => absurd (hplayer ':' hc) (by decide)

theorem IsName.ne_nil (h : IsName name) : name.toList ≠ [] := by
  obtain ⟨start, c, heq, -⟩ := h.last
  rw [heq]
  simp

theorem pyStrip_of_not_space (h : ∀ c ∈ name.toList, isPySpace c = false) : pyStrip name = name := by
  have hdrop : ∀ cs : List Char, (∀ c ∈ cs, isPySpace c = false) → cs.dropWhile isPySpace = cs := by
    intro cs hcs
    refine List.dropWhile_eq_self_iff.mpr fun hl hc => ?_
    rw [hcs _ (List.getElem_mem hl)] at hc
    cases hc
  rw [pyStrip, hdrop _ h, hdrop _ fun c hc => h c (List.mem_reverse.mp hc), List.reverse_reverse,
    String.ofList_toList]

theorem IsName.strip (h : IsName name) : pyStrip name = name :=
  pyStrip_of_not_space fun c hc => (h.chars c hc).not_space

theorem IsName.unnamespace (h : IsName name) : Objective.unnamespace name = plain name := by
  rw [Objective.unnamespace, h.strip, plain]

theorem IsName.nameOf (h : IsName name) : Objective.nameOf (.str name) = some name := by
  have hne : name ≠ "" := by
    rintro rfl
    exact h.ne_nil rfl
  rw [Objective.nameOf, h.strip, if_neg hne]

theorem toList_plain (name : String) : ∃ start, name.toList = start ++ (plain name).toList ∧
    (start = [] ∨ start = "minecraft:".toList) := by
  rw [plain, removePrefix]
  split
  · next h =>
      obtain ⟨rest, hrest⟩ := List.isPrefixOf_iff_prefix.mp h
      refine ⟨"minecraft:".toList, ?_, .inr rfl⟩
      have hlen : "minecraft:".length = "minecraft:".toList.length := rfl
      rw [← hrest, hlen, List.drop_left]
      exact congrArg _ String.toList_ofList.symm
  · exact ⟨[], rfl, .inl rfl⟩

theorem IsName.plain_chars (h : IsName name) : ∀ c ∈ (plain name).toList, IsNameChar c := by
  obtain ⟨start, heq, -⟩ := toList_plain name
  intro c hc
  exact h.chars c (heq ▸ List.mem_append_right start hc)

theorem IsName.plain_ne_nil (h : IsName name) : (plain name).toList ≠ [] := by
  obtain ⟨start, heq, hstart⟩ := toList_plain name
  intro hnil
  rw [hnil, List.append_nil] at heq
  obtain ⟨front, c, hlast, hc⟩ := h.last
  rcases hstart with rfl | rfl
  · exact h.ne_nil heq
  · rw [heq] at hlast
    have hcolon : ("minecraft:".toList).getLast? = some ':' := by decide
    rw [hlast, List.getLast?_append] at hcolon
    exact hc (Option.some.inj hcolon)

theorem IsName.not_blank (h : IsName name) : isBlank (plain name) = false := by
  rw [isBlank, List.all_eq_false]
  obtain ⟨c, hc⟩ := List.exists_mem_of_ne_nil _ h.plain_ne_nil
  exact ⟨c, hc, by rw [(h.plain_chars c hc).not_space]; exact Bool.false_ne_true⟩

/-- A name without a colon has no prefix. -/
theorem plain_of_not_mem (h : ':' ∉ name.toList) : plain name = name := by
  rw [plain, removePrefix, if_neg]
  intro hstarts
  obtain ⟨rest, hrest⟩ := List.isPrefixOf_iff_prefix.mp hstarts
  exact h (hrest ▸ List.mem_append_left rest (by decide))

end Names

end Objective

end MineBot
