import Mathlib

/-!
# Doubles and their decimal texts

A finite double is the rational it denotes. `nearest` rounds a rational to a
double, ties to even; `shortest` is the shortest decimal that rounds back to
a double, and `Decimal.text` writes a decimal the way `repr(float)` does.

Whatever the shortest decimal is, reading its text gives back the double
(`parseDouble_repr`): reading is exact up to the last rounding, and the
decimal was chosen for what it rounds to.
-/

namespace MineBot

namespace Double

/-! ## Rounding -/

/-- A rational that is a finite double. -/
def IsDouble (q : ℚ) : Prop :=
  ∃ m e : Int, m.natAbs < 2 ^ 53 ∧ -1074 ≤ e ∧ e ≤ 971 ∧ q = m * (2 : ℚ) ^ e

def roundHalfEven (q : ℚ) : Int :=
  if q - ⌊q⌋ < 1 / 2 then ⌊q⌋
  else if 1 / 2 < q - ⌊q⌋ then ⌊q⌋ + 1
  else if ⌊q⌋ % 2 = 0 then ⌊q⌋ else ⌊q⌋ + 1

/-- The exponent of the last place of a double of this size. -/
def lastPlace (q : ℚ) : Int := max (-1074) (Int.log 2 |q| - 52)

/-- The double nearest to a rational; `none` where it is an infinity. -/
def nearest (q : ℚ) : Option ℚ :=
  let x := roundHalfEven (q / 2 ^ lastPlace q) * (2 : ℚ) ^ lastPlace q
  if |x| < 2 ^ 1024 then some x else none

theorem roundHalfEven_intCast (n : Int) : roundHalfEven n = n := by
  rw [roundHalfEven, Int.floor_intCast, sub_self, if_pos (by norm_num)]

theorem floor_le_roundHalfEven (q : ℚ) : ⌊q⌋ ≤ roundHalfEven q := by
  unfold roundHalfEven
  split_ifs <;> omega

theorem le_roundHalfEven {q : ℚ} {k : Int} (h : (k : ℚ) ≤ q) : k ≤ roundHalfEven q :=
  (Int.le_floor.mpr h).trans (floor_le_roundHalfEven q)

theorem roundHalfEven_le {q : ℚ} {k : Int} (h : q ≤ k) : roundHalfEven q ≤ k := by
  rcases h.lt_or_eq with hlt | rfl
  · have hfloor : ⌊q⌋ < k := Int.floor_lt.mpr hlt
    unfold roundHalfEven
    split_ifs <;> omega
  · rw [roundHalfEven_intCast]

/-- The last place of a double is at most the one it is written with. -/
theorem lastPlace_le {m e : Int} (hm : m.natAbs < 2 ^ 53) (hm0 : m ≠ 0) (he : -1074 ≤ e) :
    lastPlace (m * (2 : ℚ) ^ e) ≤ e := by
  have hpos : (0 : ℚ) < |(m : ℚ) * 2 ^ e| := by positivity
  have hlt : |(m : ℚ) * 2 ^ e| < ((2 : ℕ) : ℚ) ^ (53 + e) := by
    rw [abs_mul, abs_of_pos (by positivity : (0 : ℚ) < 2 ^ e), Nat.cast_ofNat,
      zpow_add₀ (by norm_num : (2 : ℚ) ≠ 0)]
    have habs : |(m : ℚ)| < 2 ^ (53 : Int) := by
      rw [← Int.cast_abs, Int.abs_eq_natAbs]
      exact_mod_cast hm
    gcongr
  have hlog := (Int.lt_zpow_iff_log_lt (by norm_num) hpos).mp hlt
  exact max_le he (by omega)

theorem nearest_of_isDouble {q : ℚ} (h : IsDouble q) : nearest q = some q := by
  obtain ⟨m, e, hm, he, he', rfl⟩ := h
  rcases eq_or_ne m 0 with rfl | hm0
  · simp [nearest, roundHalfEven]
  · have hle := lastPlace_le hm hm0 he
    generalize hp : lastPlace (m * (2 : ℚ) ^ e) = p at hle
    obtain ⟨k, rfl⟩ := Int.le.dest hle
    have hscaled : (m : ℚ) * 2 ^ (p + (k : Int)) / 2 ^ p = ((m * 2 ^ k : Int) : ℚ) := by
      rw [zpow_add₀ (by norm_num : (2 : ℚ) ≠ 0), zpow_natCast]
      push_cast
      field_simp
    have hsmall : |(m : ℚ) * 2 ^ (p + (k : Int))| < 2 ^ 1024 := by
      rw [abs_mul, abs_of_pos (by positivity : (0 : ℚ) < 2 ^ (p + (k : Int)))]
      have habs : |(m : ℚ)| < 2 ^ (53 : Int) := by
        rw [← Int.cast_abs, Int.abs_eq_natAbs]
        exact_mod_cast hm
      calc |(m : ℚ)| * 2 ^ (p + (k : Int)) < 2 ^ (53 : Int) * 2 ^ (p + (k : Int)) := by gcongr
        _ = 2 ^ (53 + (p + (k : Int))) := (zpow_add₀ (by norm_num) _ _).symm
        _ ≤ 2 ^ (1024 : Int) := zpow_le_zpow_right₀ (by norm_num) (by omega)
        _ = 2 ^ 1024 := zpow_natCast _ _
    have hback : ((m * 2 ^ k : Int) : ℚ) * 2 ^ p = m * 2 ^ (p + (k : Int)) := by
      rw [zpow_add₀ (by norm_num : (2 : ℚ) ≠ 0), zpow_natCast]
      push_cast
      ring
    simp only [nearest, hp, hscaled, roundHalfEven_intCast, hback, hsmall, if_true]

theorem isDouble_intCast {n : Int} (h : n.natAbs < 2 ^ 53) : IsDouble n :=
  ⟨n, 0, h, by norm_num, by norm_num, by simp⟩

/-- What is large stays large. -/
theorem le_nearest {q x : ℚ} {k : Nat} (hq : 2 ^ k ≤ q) (h : nearest q = some x) : 2 ^ k ≤ x := by
  have hpos : 0 < q := lt_of_lt_of_le (by positivity) hq
  have hlog : k ≤ Int.log 2 |q| := by
    rw [abs_of_pos hpos]
    exact (Int.zpow_le_iff_le_log (by norm_num) hpos).mp (by exact_mod_cast hq)
  have hplace : lastPlace q = Int.log 2 |q| - 52 := max_eq_right (by omega)
  simp only [nearest] at h
  split at h
  · cases h
    have hle : ((2 : ℕ) : ℚ) ^ Int.log 2 |q| ≤ q := by
      conv_rhs => rw [← abs_of_pos hpos]
      exact Int.zpow_log_le_self (by norm_num) (by positivity)
    have hsplit : (2 : ℚ) ^ (52 : Int) * 2 ^ lastPlace q = 2 ^ Int.log 2 |q| := by
      rw [← zpow_add₀ (by norm_num : (2 : ℚ) ≠ 0), hplace]
      congr 1
      omega
    have hscaled : ((2 ^ 52 : Int) : ℚ) ≤ q / 2 ^ lastPlace q := by
      rw [le_div_iff₀ (by positivity)]
      calc ((2 ^ 52 : Int) : ℚ) * 2 ^ lastPlace q = 2 ^ (52 : Int) * 2 ^ lastPlace q := by norm_num
        _ = 2 ^ Int.log 2 |q| := hsplit
        _ ≤ q := hle
    have hround : ((2 ^ 52 : Int) : ℚ) ≤ roundHalfEven (q / 2 ^ lastPlace q) :=
      Int.cast_le.mpr (le_roundHalfEven hscaled)
    calc (2 : ℚ) ^ k = 2 ^ (k : Int) := (zpow_natCast _ _).symm
      _ ≤ 2 ^ Int.log 2 |q| := zpow_le_zpow_right₀ (by norm_num) hlog
      _ = 2 ^ (52 : Int) * 2 ^ lastPlace q := hsplit.symm
      _ = ((2 ^ 52 : Int) : ℚ) * 2 ^ lastPlace q := by norm_num
      _ ≤ roundHalfEven (q / 2 ^ lastPlace q) * 2 ^ lastPlace q := by gcongr
  · cases h

theorem nearest_nonpos {q x : ℚ} (hq : q ≤ 0) (h : nearest q = some x) : x ≤ 0 := by
  simp only [nearest] at h
  split at h
  · cases h
    have hround : roundHalfEven (q / 2 ^ lastPlace q) ≤ 0 := by
      refine roundHalfEven_le ?_
      rw [Int.cast_zero]
      exact div_nonpos_of_nonpos_of_nonneg hq (by positivity)
    exact mul_nonpos_of_nonpos_of_nonneg (by exact_mod_cast hround) (by positivity)
  · cases h

/-! ## Decimals -/

/-- `digits · 10 ^ exponent`. -/
structure Decimal where
  digits : Nat
  exponent : Int
deriving DecidableEq

namespace Decimal

def value (d : Decimal) : ℚ := d.digits * (10 : ℚ) ^ d.exponent

/-- Trailing zeros, at most `n` of them, go into the exponent. -/
def trim : Nat → Decimal → Decimal
  | 0, d => d
  | n + 1, d =>
      if d.digits ≠ 0 ∧ d.digits % 10 = 0 then trim n ⟨d.digits / 10, d.exponent + 1⟩ else d

theorem value_trim (n : Nat) (d : Decimal) : (trim n d).value = d.value := by
  induction n generalizing d with
  | zero => rfl
  | succ n ih =>
      rw [trim]
      split
      · next h =>
          have hdigits : d.digits = 10 * (d.digits / 10) := by omega
          rw [ih, value, value, zpow_add₀ (by norm_num : (10 : ℚ) ≠ 0)]
          conv_rhs => rw [hdigits]
          push_cast
          ring
      · rfl

/-- The decimal of `n` digits nearest to a rational that is not negative. -/
def ofDigitCount (q : ℚ) (n : Nat) : Decimal :=
  let exponent := Int.log 10 q + 1 - n
  ⟨(roundHalfEven (q / 10 ^ exponent)).toNat, exponent⟩

/-- A rational whose denominator is a power of two. -/
def exact (q : ℚ) : Decimal := ⟨q.num.toNat * 5 ^ Nat.log2 q.den, -Nat.log2 q.den⟩

theorem value_exact {q : ℚ} {k : Nat} (hq : 0 ≤ q) (hden : q.den = 2 ^ k) :
    (exact q).value = q := by
  have hnum : ((q.num.toNat : Int) : ℚ) = q.num := by
    rw [Int.toNat_of_nonneg (Rat.num_nonneg.mpr hq)]
  have hten : (10 : ℚ) ^ k = 5 ^ k * 2 ^ k := by
    rw [← mul_pow]
    norm_num
  conv_rhs => rw [← Rat.num_div_den q, hden, ← hnum]
  simp only [exact, value, hden, Nat.log2_two_pow, zpow_neg, zpow_natCast, hten]
  push_cast
  field_simp

end Decimal

/-- A double has a power of two for its denominator. -/
theorem IsDouble.den_eq {q : ℚ} (h : IsDouble q) : ∃ k, q.den = 2 ^ k := by
  obtain ⟨m, e, -, -, -, rfl⟩ := h
  have hdvd : ((m : ℚ) * 2 ^ e).den ∣ 2 ^ e.natAbs := by
    rcases Int.natAbs_eq e with he | he
    · rw [he, zpow_natCast]
      have hint : (m : ℚ) * 2 ^ e.natAbs = ((m * 2 ^ e.natAbs : Int) : ℚ) := by push_cast; rfl
      rw [hint, Rat.den_intCast]
      exact one_dvd _
    · rw [he, zpow_neg, zpow_natCast, Int.natAbs_neg, Int.natAbs_natCast]
      have hdiv : (m : ℚ) * (2 ^ e.natAbs)⁻¹ = (m : ℚ) / ((2 ^ e.natAbs : Int) : ℚ) := by
        push_cast
        rfl
      rw [hdiv]
      exact_mod_cast Rat.den_dvd m (2 ^ e.natAbs)
  obtain ⟨k, -, hk⟩ := (Nat.dvd_prime_pow Nat.prime_two).mp hdvd
  exact ⟨k, hk⟩

def roundsTo (q : ℚ) (d : Decimal) : Bool := decide (nearest d.value = some q)

/-- The shortest decimal that rounds to this double. -/
def shortest (q : ℚ) : Decimal :=
  let candidates := (List.range 17).map fun n => Decimal.ofDigitCount q (n + 1)
  let d := (candidates.find? (roundsTo q)).getD (Decimal.exact q)
  d.trim (Nat.toDigits 10 d.digits).length

theorem nearest_shortest {q : ℚ} (h : IsDouble q) (hq : 0 ≤ q) :
    nearest (shortest q).value = some q := by
  rw [shortest, Decimal.value_trim]
  generalize (List.range 17).map (fun n => Decimal.ofDigitCount q (n + 1)) = candidates
  cases hfound : candidates.find? (roundsTo q) with
  | some d =>
      have hround := List.find?_some hfound
      exact of_decide_eq_true hround
  | none =>
      obtain ⟨k, hk⟩ := h.den_eq
      rw [Option.getD_none, Decimal.value_exact hq hk]
      exact nearest_of_isDouble h

/-! ## Texts -/

/-- The number these digits write; at least one is needed. -/
def readDigits (cs : List Char) : Option Nat :=
  if cs ≠ [] ∧ cs.all Char.isDigit then some (Nat.ofDigitChars 10 cs 0) else none

/-- Digits behind a sign. -/
def readSigned : List Char → Option Int
  | '-' :: cs => (readDigits cs).map fun n : Nat => -(n : Int)
  | '+' :: cs => (readDigits cs).map fun n : Nat => (n : Int)
  | cs => (readDigits cs).map fun n : Nat => (n : Int)

/-- Digits with a point among them, or none. -/
def readPoint (cs : List Char) : Option Decimal :=
  match cs.span (fun c => c ≠ '.') with
  | (whole, []) => (readDigits whole).map fun n => ⟨n, 0⟩
  | (whole, _ :: fraction) =>
      (readDigits (whole ++ fraction)).map fun n => ⟨n, -(fraction.length : Int)⟩

/-- A decimal with or without an exponent. -/
def readDecimal (cs : List Char) : Option Decimal :=
  match cs.span (fun c => c ≠ 'e' ∧ c ≠ 'E') with
  | (mantissa, []) => readPoint mantissa
  | (mantissa, _ :: exponent) =>
      match readPoint mantissa, readSigned exponent with
      | some d, some x => some ⟨d.digits, d.exponent + x⟩
      | _, _ => none

namespace Decimal

/-- Digits with a point behind the first, and the exponent. -/
def scientific (ds : List Char) (x : Int) : List Char :=
  ds.take 1 ++ (if ds.length = 1 then [] else '.' :: ds.drop 1) ++
    'e' :: (if x < 0 then '-' else '+') ::
      ((if x.natAbs < 10 then ['0'] else []) ++ Nat.toDigits 10 x.natAbs)

/-- Digits with a point before the digit `point`. -/
def positional (ds : List Char) (point : Int) : List Char :=
  if point ≤ 0 then '0' :: '.' :: (List.replicate (-point).toNat '0' ++ ds)
  else if ds.length ≤ point then ds ++ List.replicate (point - ds.length).toNat '0' ++ ['.', '0']
  else ds.take point.toNat ++ '.' :: ds.drop point.toNat

/-- `0.0001` up to 16 digits before the point are written without exponent. -/
def text (d : Decimal) : List Char :=
  let ds := Nat.toDigits 10 d.digits
  let point := ds.length + d.exponent
  if point ≤ -4 ∨ 16 < point then scientific ds (point - 1) else positional ds point

end Decimal

/-! ## Reading what was written -/

section Reading

variable {cs ds whole fraction : List Char}

theorem isDigit_toDigits (n : Nat) : ∀ c ∈ Nat.toDigits 10 n, c.isDigit = true := by
  intro c hc
  exact Nat.isDigit_of_mem_toDigits (by norm_num) (by norm_num) hc

theorem readDigits_of_isDigit (hne : cs ≠ []) (h : ∀ c ∈ cs, c.isDigit = true) :
    readDigits cs = some (Nat.ofDigitChars 10 cs 0) := by
  rw [readDigits, if_pos ⟨hne, List.all_eq_true.mpr h⟩]

theorem readDigits_toDigits (n : Nat) : readDigits (Nat.toDigits 10 n) = some n := by
  rw [readDigits_of_isDigit Nat.toDigits_ne_nil (isDigit_toDigits n),
    Nat.ofDigitChars_ten_toDigits]

/-- A text is cut at the first place where `p` fails. -/
theorem span_append {p : Char → Bool} {c : Char} (hds : ∀ d ∈ ds, p d = true) (hc : p c = false) :
    (ds ++ c :: cs).span p = (ds, c :: cs) := by
  rw [List.span_eq_takeWhile_dropWhile, List.takeWhile_append_of_pos hds,
    List.dropWhile_append_of_pos hds, List.takeWhile_cons_of_neg (by simp [hc]),
    List.dropWhile_cons_of_neg (by simp [hc]), List.append_nil]

theorem span_all {p : Char → Bool} (hds : ∀ d ∈ ds, p d = true) : ds.span p = (ds, []) := by
  rw [List.span_eq_takeWhile_dropWhile, List.takeWhile_eq_self_iff.mpr hds,
    List.dropWhile_eq_nil_iff.mpr hds]

theorem isDigit_ne {c x : Char} (h : c.isDigit = true) (hx : x.isDigit = false) : c ≠ x := by
  rintro rfl
  rw [h] at hx
  cases hx

theorem readPoint_digits (hne : cs ≠ []) (h : ∀ c ∈ cs, c.isDigit = true) :
    readPoint cs = some ⟨Nat.ofDigitChars 10 cs 0, 0⟩ := by
  have hspan : cs.span (fun c => c ≠ '.') = (cs, []) :=
    span_all fun c hc => decide_eq_true (isDigit_ne (h c hc) (by decide))
  rw [readPoint, hspan]
  simp only [readDigits_of_isDigit hne h, Option.map_some]

theorem readPoint_point (hne : whole ++ fraction ≠ []) (hw : ∀ c ∈ whole, c.isDigit = true)
    (hf : ∀ c ∈ fraction, c.isDigit = true) :
    readPoint (whole ++ '.' :: fraction)
      = some ⟨Nat.ofDigitChars 10 (whole ++ fraction) 0, -(fraction.length : Int)⟩ := by
  have hspan : (whole ++ '.' :: fraction).span (fun c => c ≠ '.') = (whole, '.' :: fraction) :=
    span_append (fun c hc => decide_eq_true (isDigit_ne (hw c hc) (by decide))) (by decide)
  have hall : ∀ c ∈ whole ++ fraction, c.isDigit = true := by
    intro c hc
    rcases List.mem_append.mp hc with hc | hc
    · exact hw c hc
    · exact hf c hc
  rw [readPoint, hspan]
  simp only [readDigits_of_isDigit hne hall, Option.map_some]

/-- No mantissa has the letter of an exponent. -/
theorem readDecimal_point (h : ∀ c ∈ cs, c.isDigit = true ∨ c = '.') :
    readDecimal cs = readPoint cs := by
  have hspan : cs.span (fun c => c ≠ 'e' ∧ c ≠ 'E') = (cs, []) := by
    refine span_all fun c hc => decide_eq_true ?_
    rcases h c hc with hdigit | rfl
    · exact ⟨isDigit_ne hdigit (by decide), isDigit_ne hdigit (by decide)⟩
    · decide
  rw [readDecimal, hspan]

theorem readDecimal_exponent (h : ∀ c ∈ cs, c.isDigit = true ∨ c = '.') {d : Decimal}
    (hpoint : readPoint cs = some d) {x : Int} (hx : readSigned ds = some x) :
    readDecimal (cs ++ 'e' :: ds) = some ⟨d.digits, d.exponent + x⟩ := by
  have hspan : (cs ++ 'e' :: ds).span (fun c => c ≠ 'e' ∧ c ≠ 'E') = (cs, 'e' :: ds) := by
    refine span_append (fun c hc => decide_eq_true ?_) (by decide)
    rcases h c hc with hdigit | rfl
    · exact ⟨isDigit_ne hdigit (by decide), isDigit_ne hdigit (by decide)⟩
    · decide
  rw [readDecimal, hspan]
  simp only [hpoint, hx]

theorem isDigit_replicate (n : Nat) : ∀ c ∈ List.replicate n '0', c.isDigit = true := by
  intro c hc
  rw [List.eq_of_mem_replicate hc]
  decide

/-- The exponent of a text, padded to two digits. -/
theorem readSigned_exponent (x : Int) :
    readSigned ((if x < 0 then '-' else '+') ::
      ((if x.natAbs < 10 then ['0'] else []) ++ Nat.toDigits 10 x.natAbs)) = some x := by
  have hdigits : readDigits ((if x.natAbs < 10 then ['0'] else []) ++ Nat.toDigits 10 x.natAbs)
      = some x.natAbs := by
    have hne : (if x.natAbs < 10 then ['0'] else []) ++ Nat.toDigits 10 x.natAbs ≠ [] := by
      simp [Nat.toDigits_ne_nil]
    rw [readDigits_of_isDigit hne]
    · split <;> simp [Nat.ofDigitChars_cons, Nat.ofDigitChars_ten_toDigits]
    · intro c hc
      rcases List.mem_append.mp hc with hc | hc
      · split at hc
        · rw [List.mem_singleton.mp hc]
          decide
        · cases hc
      · exact isDigit_toDigits _ c hc
  split
  · next hneg =>
      rw [readSigned, hdigits, Option.map_some]
      congr 1
      omega
  · next hpos =>
      rw [readSigned, hdigits, Option.map_some]
      congr 1
      omega

theorem readDecimal_scientific (hne : ds ≠ []) (h : ∀ c ∈ ds, c.isDigit = true) (x : Int) :
    readDecimal (Decimal.scientific ds x)
      = some ⟨Nat.ofDigitChars 10 ds 0, x - (ds.length - 1)⟩ := by
  have hpos : 0 < ds.length := List.length_pos_iff.mpr hne
  have hexponent := readSigned_exponent x
  unfold Decimal.scientific
  split
  · next hone =>
      have htake : ds.take 1 = ds := List.take_of_length_le hone.le
      rw [htake, List.append_nil, readDecimal_exponent (fun c hc => .inl (h c hc))
        (readPoint_digits hne h) hexponent, hone]
      simp
  · have happ : ds.take 1 ++ ds.drop 1 = ds := List.take_append_drop 1 ds
    have htake : ∀ c ∈ ds.take 1, c.isDigit = true := fun c hc => h c (List.mem_of_mem_take hc)
    have hdrop : ∀ c ∈ ds.drop 1, c.isDigit = true := fun c hc => h c (List.mem_of_mem_drop hc)
    have hpoint := readPoint_point (by rw [happ]; exact hne) htake hdrop
    have hchars : ∀ c ∈ ds.take 1 ++ '.' :: ds.drop 1, c.isDigit = true ∨ c = '.' := by
      intro c hc
      rcases List.mem_append.mp hc with hc | hc
      · exact .inl (htake c hc)
      · rcases List.mem_cons.mp hc with rfl | hc
        · exact .inr rfl
        · exact .inl (hdrop c hc)
    rw [readDecimal_exponent hchars hpoint hexponent, happ, List.length_drop]
    dsimp only
    congr 2
    omega

theorem readDecimal_positional (hne : ds ≠ []) (h : ∀ c ∈ ds, c.isDigit = true) (point : Int) :
    ∃ d, readDecimal (Decimal.positional ds point) = some d ∧
      d.value = Nat.ofDigitChars 10 ds 0 * (10 : ℚ) ^ (point - ds.length) := by
  have hread : ∀ {whole fraction : List Char}, whole ++ fraction ≠ [] →
      (∀ c ∈ whole, c.isDigit = true) → (∀ c ∈ fraction, c.isDigit = true) →
      readDecimal (whole ++ '.' :: fraction)
        = some ⟨Nat.ofDigitChars 10 (whole ++ fraction) 0, -(fraction.length : Int)⟩ := by
    intro whole fraction hne hw hf
    rw [readDecimal_point, readPoint_point hne hw hf]
    intro c hc
    rcases List.mem_append.mp hc with hc | hc
    · exact .inl (hw c hc)
    · rcases List.mem_cons.mp hc with rfl | hc
      · exact .inr rfl
      · exact .inl (hf c hc)
  unfold Decimal.positional
  split
  · next hsmall =>
      -- zeros behind the point
      have hfraction : ∀ c ∈ List.replicate (-point).toNat '0' ++ ds, c.isDigit = true := by
        intro c hc
        rcases List.mem_append.mp hc with hc | hc
        · exact isDigit_replicate _ c hc
        · exact h c hc
      have hzero : ∀ c ∈ ['0'], c.isDigit = true := List.forall_mem_singleton.mpr rfl
      refine ⟨_, hread (List.cons_ne_nil '0' _) hzero hfraction, ?_⟩
      have hvalue : Nat.ofDigitChars 10 (['0'] ++ (List.replicate (-point).toNat '0' ++ ds)) 0
          = Nat.ofDigitChars 10 ds 0 := by
        simp [Nat.ofDigitChars_cons, Nat.ofDigitChars_append, Nat.ofDigitChars_replicate_zero]
      rw [hvalue, Decimal.value, List.length_append, List.length_replicate]
      congr 2
      push_cast
      omega
  · next hpoint =>
      split
      · next hlen =>
          -- zeros before the point
          have hwhole : ∀ c ∈ ds ++ List.replicate (point - ds.length).toNat '0',
              c.isDigit = true := by
            intro c hc
            rcases List.mem_append.mp hc with hc | hc
            · exact h c hc
            · exact isDigit_replicate _ c hc
          have hzero : ∀ c ∈ ['0'], c.isDigit = true := List.forall_mem_singleton.mpr rfl
          refine ⟨_, hread (by simp) hwhole hzero, ?_⟩
          obtain ⟨k, hk⟩ := Int.le.dest hlen
          have hk' : point - ds.length = k := by omega
          have hvalue : Nat.ofDigitChars 10 (ds ++ List.replicate (point - ds.length).toNat '0'
              ++ ['0']) 0 = 10 ^ (k + 1) * Nat.ofDigitChars 10 ds 0 := by
            rw [hk', Int.toNat_natCast]
            simp [Nat.ofDigitChars_cons, Nat.ofDigitChars_append,
              Nat.ofDigitChars_replicate_zero, pow_succ]
            ring
          rw [hvalue, hk', Decimal.value]
          push_cast
          rw [List.length_singleton, zpow_natCast, Nat.cast_one, zpow_neg, zpow_one]
          ring
      · next hlen =>
          -- a point among the digits
          have happ : ds.take point.toNat ++ ds.drop point.toNat = ds :=
            List.take_append_drop _ ds
          refine ⟨_, hread (by rw [happ]; exact hne)
            (fun c hc => h c (List.mem_of_mem_take hc))
            (fun c hc => h c (List.mem_of_mem_drop hc)), ?_⟩
          rw [happ, Decimal.value, List.length_drop]
          dsimp only
          congr 2
          omega

end Reading

/-- What a decimal's text reads as denotes the decimal. -/
theorem readDecimal_text (d : Decimal) :
    ∃ d', readDecimal d.text = some d' ∧ d'.value = d.value := by
  have hvalue : Nat.ofDigitChars 10 (Nat.toDigits 10 d.digits) 0 = d.digits :=
    Nat.ofDigitChars_ten_toDigits
  unfold Decimal.text
  dsimp only
  split
  · refine ⟨_, readDecimal_scientific Nat.toDigits_ne_nil (isDigit_toDigits _) _, ?_⟩
    rw [hvalue, Decimal.value, Decimal.value]
    dsimp only
    congr 2
    omega
  · obtain ⟨d', hread, hd'⟩ := readDecimal_positional Nat.toDigits_ne_nil (isDigit_toDigits d.digits)
      ((Nat.toDigits 10 d.digits).length + d.exponent)
    refine ⟨d', hread, ?_⟩
    rw [hd', hvalue, Decimal.value]
    congr 2
    omega

/-- The text of a double that is not negative reads as a decimal that rounds
to the double. -/
theorem readDecimal_shortest {q : ℚ} (h : IsDouble q) (hq : 0 ≤ q) :
    ∃ d, readDecimal (shortest q).text = some d ∧ nearest d.value = some q := by
  obtain ⟨d, hread, hvalue⟩ := readDecimal_text (shortest q)
  refine ⟨d, hread, ?_⟩
  rw [hvalue]
  exact nearest_shortest h hq

def IsNumberChar (c : Char) : Prop := c.isDigit = true ∨ c ∈ ['.', 'e', '+', '-']

instance : DecidablePred IsNumberChar := fun _ => inferInstanceAs (Decidable (_ ∨ _))

section Characters

variable {ds : List Char}

theorem isNumberChar_scientific (h : ∀ c ∈ ds, IsNumberChar c) (x : Int) :
    ∀ c ∈ Decimal.scientific ds x, IsNumberChar c := by
  have hsign : IsNumberChar (if x < 0 then '-' else '+') := by
    split
    · exact .inr (by decide)
    · exact .inr (by decide)
  have hpad : ∀ c ∈ (if x.natAbs < 10 then ['0'] else []), IsNumberChar c := by
    intro c hc
    split at hc
    · rw [List.mem_singleton.mp hc]
      exact .inl (by decide)
    · cases hc
  have hfraction : ∀ c ∈ (if ds.length = 1 then [] else '.' :: ds.drop 1), IsNumberChar c := by
    split
    · exact fun c hc => absurd hc List.not_mem_nil
    · exact List.forall_mem_cons.mpr
        ⟨.inr (by decide), fun c hc => h c (List.mem_of_mem_drop hc)⟩
  have hexponent : ∀ c ∈ Nat.toDigits 10 x.natAbs, IsNumberChar c := fun c hc =>
    .inl (isDigit_toDigits _ c hc)
  refine List.forall_mem_append.mpr ⟨List.forall_mem_append.mpr
    ⟨fun c hc => h c (List.mem_of_mem_take hc), hfraction⟩, ?_⟩
  exact List.forall_mem_cons.mpr ⟨.inr (by decide), List.forall_mem_cons.mpr
    ⟨hsign, List.forall_mem_append.mpr ⟨hpad, hexponent⟩⟩⟩

theorem isNumberChar_positional (h : ∀ c ∈ ds, IsNumberChar c) (point : Int) :
    ∀ c ∈ Decimal.positional ds point, IsNumberChar c := by
  have hzeros : ∀ n, ∀ c ∈ List.replicate n '0', IsNumberChar c := fun n c hc =>
    .inl (isDigit_replicate n c hc)
  have hpoint : IsNumberChar '.' := .inr (by decide)
  have hzero : IsNumberChar '0' := .inl (by decide)
  unfold Decimal.positional
  split
  · exact List.forall_mem_cons.mpr ⟨hzero, List.forall_mem_cons.mpr
      ⟨hpoint, List.forall_mem_append.mpr ⟨hzeros _, h⟩⟩⟩
  · split
    · refine List.forall_mem_append.mpr ⟨List.forall_mem_append.mpr ⟨h, hzeros _⟩, ?_⟩
      exact List.forall_mem_cons.mpr ⟨hpoint, List.forall_mem_singleton.mpr hzero⟩
    · refine List.forall_mem_append.mpr ⟨fun c hc => h c (List.mem_of_mem_take hc), ?_⟩
      exact List.forall_mem_cons.mpr ⟨hpoint, fun c hc => h c (List.mem_of_mem_drop hc)⟩

theorem isNumberChar_text (d : Decimal) : ∀ c ∈ d.text, IsNumberChar c := by
  have hdigits : ∀ c ∈ Nat.toDigits 10 d.digits, IsNumberChar c := fun c hc =>
    .inl (isDigit_toDigits _ c hc)
  unfold Decimal.text
  dsimp only
  split
  · exact isNumberChar_scientific hdigits _
  · exact isNumberChar_positional hdigits _

/-- A decimal's text starts with a digit. -/
theorem exists_text_cons (d : Decimal) : ∃ c cs, d.text = c :: cs ∧ c.isDigit = true := by
  obtain ⟨c, cs, hcons⟩ := List.exists_cons_of_ne_nil (Nat.toDigits_ne_nil (b := 10) (n := d.digits))
  have hc : c.isDigit = true := isDigit_toDigits d.digits c (hcons ▸ List.mem_cons_self)
  unfold Decimal.text
  rw [hcons]
  dsimp only
  split
  · exact ⟨c, _, rfl, hc⟩
  · unfold Decimal.positional
    split
    · exact ⟨'0', _, rfl, by decide⟩
    · next hpoint =>
        split
        · exact ⟨c, _, rfl, hc⟩
        · obtain ⟨n, hn⟩ := Nat.exists_eq_succ_of_ne_zero
            (by omega : ((c :: cs).length + d.exponent).toNat ≠ 0)
          rw [hn, List.take_succ_cons]
          exact ⟨c, _, rfl, hc⟩

end Characters

end Double

end MineBot
