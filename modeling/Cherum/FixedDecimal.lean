import Mathlib

/-! Decimal texts with a fixed number of places: a rational number is rounded
to the nearest one with that many places, ties to even, and written out. Read
back exactly, the text is off by at most half a unit of the last place. Doubles
are rounded in the same way, to binary places. -/

namespace Cherum.FixedDecimal

def roundHalfEven (x : ℚ≥0) : ℕ :=
  if x - ⌊x⌋₊ < 1 / 2 then ⌊x⌋₊
  else if 1 / 2 < x - ⌊x⌋₊ then ⌊x⌋₊ + 1
  else if ⌊x⌋₊ % 2 = 0 then ⌊x⌋₊ else ⌊x⌋₊ + 1

def lastDigits : ℕ → ℕ → List Char
  | 0, _ => []
  | places + 1, n => lastDigits places (n / 10) ++ [Nat.digitChar (n % 10)]

def unitsText (places n : ℕ) : List Char :=
  Nat.toDigits 10 (n / 10 ^ places) ++ '.' :: lastDigits places n

def fixedText (places : ℕ) (x : ℚ≥0) : List Char :=
  unitsText places (roundHalfEven (x * 10 ^ places))

def decimalValue (whole fraction : List Char) : ℚ≥0 :=
  Nat.ofDigitChars 10 (whole ++ fraction) 0 / 10 ^ fraction.length

/-- At most `size` digits before the point. -/
def Below (size : ℕ) (x : ℚ≥0) : Prop := x < 10 ^ size

def rounded (places : ℕ) (x : ℚ≥0) : ℚ≥0 := roundHalfEven (x * 10 ^ places) / 10 ^ places

/-- The exponent of the last of 53 binary digits, which for small numbers stays
that of the subnormal ones. -/
def lastPlace (x : ℚ≥0) : ℤ := max (Int.log 2 x) (-1022) - 52

def roundedBinary (x : ℚ≥0) : ℚ≥0 := roundHalfEven (x / 2 ^ lastPlace x) * 2 ^ lastPlace x

theorem roundHalfEven_near (x : ℚ≥0) :
    (roundHalfEven x : ℚ) ≤ x + 1 / 2 ∧ (x : ℚ) ≤ roundHalfEven x + 1 / 2 := by
  have hfloor : (⌊x⌋₊ : ℚ≥0) ≤ x := Nat.floor_le x.2
  have hrest : ((x - ⌊x⌋₊ : ℚ≥0) : ℚ) = x - ⌊x⌋₊ := NNRat.coe_sub hfloor
  have hbelow : (⌊x⌋₊ : ℚ) ≤ x := by exact_mod_cast hfloor
  have habove : (x : ℚ) < ⌊x⌋₊ + 1 := by exact_mod_cast Nat.lt_floor_add_one x
  unfold roundHalfEven
  split
  · next h =>
    have h' : (x : ℚ) - ⌊x⌋₊ < 1 / 2 := by
      rw [← hrest]
      exact_mod_cast h
    constructor <;> linarith
  · next h =>
    have h' : 1 / 2 ≤ (x : ℚ) - ⌊x⌋₊ := by
      rw [← hrest]
      exact_mod_cast not_lt.mp h
    split
    · push_cast
      constructor <;> linarith
    · next hup =>
      have hup' : (x : ℚ) - ⌊x⌋₊ ≤ 1 / 2 := by
        rw [← hrest]
        exact_mod_cast not_lt.mp hup
      split
      · constructor <;> linarith
      · push_cast
        constructor <;> linarith

theorem rounded_near (places : ℕ) (x : ℚ≥0) :
    |(rounded places x : ℚ) - x| ≤ 1 / (2 * 10 ^ places) := by
  obtain ⟨hbelow, habove⟩ := roundHalfEven_near (x * 10 ^ places)
  have hpos : (0 : ℚ) < 10 ^ places := by positivity
  have hvalue : (rounded places x : ℚ) =
      (roundHalfEven (x * 10 ^ places) : ℚ) / 10 ^ places := by
    simp [rounded]
  push_cast at hbelow habove
  rw [hvalue, abs_le]
  constructor
  · rw [neg_le_sub_iff_le_add, div_add_div _ _ hpos.ne' (by positivity), le_div_iff₀ (by positivity)]
    nlinarith
  · rw [sub_le_iff_le_add, div_le_iff₀ hpos, add_mul]
    have hhalf : 1 / (2 * 10 ^ places) * (10 : ℚ) ^ places = 1 / 2 := by field_simp
    linarith

theorem roundedBinary_near (x : ℚ≥0) :
    |(roundedBinary x : ℚ) - x| ≤ 2 ^ lastPlace x / 2 := by
  have hunit : (0 : ℚ) < 2 ^ lastPlace x := by positivity
  obtain ⟨hbelow, habove⟩ := roundHalfEven_near (x / 2 ^ lastPlace x)
  have hvalue : (roundedBinary x : ℚ) =
      roundHalfEven (x / 2 ^ lastPlace x) * 2 ^ lastPlace x := by
    rw [roundedBinary]
    push_cast
    rfl
  push_cast at hbelow habove
  have hdistance : (roundedBinary x : ℚ) - x =
      2 ^ lastPlace x * (roundHalfEven (x / 2 ^ lastPlace x) - x / 2 ^ lastPlace x) := by
    rw [hvalue, mul_sub, mul_div_cancel₀ _ hunit.ne', mul_comm]
  have hhalf : |(roundHalfEven (x / 2 ^ lastPlace x) : ℚ) - x / 2 ^ lastPlace x| ≤ 1 / 2 :=
    abs_le.mpr ⟨by linarith, by linarith⟩
  calc |(roundedBinary x : ℚ) - x|
      = 2 ^ lastPlace x * |(roundHalfEven (x / 2 ^ lastPlace x) : ℚ) - x / 2 ^ lastPlace x| := by
        rw [hdistance, abs_mul, abs_of_pos hunit]
    _ ≤ 2 ^ lastPlace x * (1 / 2) := mul_le_mul_of_nonneg_left hhalf hunit.le
    _ = 2 ^ lastPlace x / 2 := by ring

theorem lastPlace_le {x : ℚ≥0} {n : ℕ} (hx : x < 2 ^ (n + 1)) : lastPlace x ≤ n - 52 := by
  have hlog : Int.log 2 x ≤ n := by
    rcases eq_or_ne x 0 with hzero | hzero
    · simp [hzero]
    · rw [← Int.lt_add_one_iff, ← Int.lt_zpow_iff_log_lt Nat.one_lt_two (pos_iff_ne_zero.mpr hzero)]
      exact_mod_cast hx
  unfold lastPlace
  omega

theorem roundHalfEven_natCast (n : ℕ) : roundHalfEven n = n := by
  have hzero : (n : ℚ≥0) - n < 1 / 2 := by
    rw [tsub_self]
    exact one_half_pos
  rw [roundHalfEven, Nat.floor_natCast, if_pos hzero]

/-- A number with 53 binary digits, `k` of them behind the point, is a double. -/
theorem roundedBinary_dyadic {m k : ℕ} (hm : m < 2 ^ 53) (hk : k ≤ 1074) :
    roundedBinary (m / 2 ^ k) = m / 2 ^ k := by
  by_cases hzero : m = 0
  · have hnone : roundHalfEven ((0 : ℕ) : ℚ≥0) = 0 := roundHalfEven_natCast 0
    rw [Nat.cast_zero] at hnone
    rw [hzero, Nat.cast_zero, zero_div, roundedBinary, zero_div, hnone, Nat.cast_zero, zero_mul]
  have hpos : (0 : ℚ≥0) < m / 2 ^ k := by positivity
  have hlog : Int.log 2 ((m : ℚ≥0) / 2 ^ k) < 53 - k := by
    rw [← Int.lt_zpow_iff_log_lt Nat.one_lt_two hpos, zpow_sub₀ (by positivity), zpow_natCast]
    have hm' : (m : ℚ≥0) < 2 ^ 53 := by exact_mod_cast hm
    exact div_lt_div_of_pos_right hm' (by positivity)
  have hplace : lastPlace ((m : ℚ≥0) / 2 ^ k) ≤ -k := by
    unfold lastPlace
    omega
  rw [roundedBinary]
  generalize lastPlace ((m : ℚ≥0) / 2 ^ k) = place at hplace
  obtain ⟨n, hn⟩ := Int.eq_ofNat_of_zero_le (sub_nonneg.mpr hplace)
  have hexp : -((k : ℤ) + place) = n := by omega
  have hscaled : (m : ℚ≥0) / 2 ^ k / 2 ^ place = (m * 2 ^ n : ℕ) := by
    rw [div_div, ← zpow_natCast, ← zpow_add₀ two_ne_zero, div_eq_mul_inv, ← zpow_neg, hexp,
      zpow_natCast, Nat.cast_mul, Nat.cast_pow, Nat.cast_ofNat]
  rw [hscaled, roundHalfEven_natCast, ← hscaled, div_mul_cancel₀]
  positivity

theorem lastDigits_length (places n : ℕ) : (lastDigits places n).length = places := by
  induction places generalizing n with
  | zero => rfl
  | succ places ih => simp [lastDigits, ih]

theorem lastDigits_isDigit {places n : ℕ} {c : Char} (h : c ∈ lastDigits places n) :
    c.isDigit = true := by
  induction places generalizing n with
  | zero => simp [lastDigits] at h
  | succ places ih =>
    cases List.mem_append.mp h with
    | inl h => exact ih h
    | inr h =>
      have hlast : c ∈ Nat.toDigits 10 (n % 10) := by
        rw [Nat.toDigits_of_lt_base (Nat.mod_lt n (by decide))]
        exact h
      exact Nat.isDigit_of_mem_toDigits (by decide) le_rfl hlast

theorem ofDigitChars_lastDigits (places n start : ℕ) :
    Nat.ofDigitChars 10 (lastDigits places n) start = start * 10 ^ places + n % 10 ^ places := by
  induction places generalizing n with
  | zero => simp [lastDigits, Nat.mod_one]
  | succ places ih =>
    have hdigit : n % 10 < 10 := Nat.mod_lt n (by decide)
    have hsplit : n % 10 ^ (places + 1) = 10 * (n / 10 % 10 ^ places) + n % 10 := by
      rw [Nat.pow_succ', Nat.mod_mul, Nat.add_comm]
    rw [lastDigits, Nat.ofDigitChars_append, ih, Nat.ofDigitChars_cons_digitChar_of_lt_ten hdigit,
      Nat.ofDigitChars_nil, hsplit]
    ring

theorem decimalValue_units (places n : ℕ) :
    decimalValue (Nat.toDigits 10 (n / 10 ^ places)) (lastDigits places n) = n / 10 ^ places := by
  unfold decimalValue
  rw [Nat.ofDigitChars_append, Nat.ofDigitChars_ten_toDigits, ofDigitChars_lastDigits,
    lastDigits_length, Nat.div_add_mod']

theorem roundHalfEven_le {x : ℚ≥0} {n : ℕ} (h : x < n) : roundHalfEven x ≤ n := by
  have hnear := (roundHalfEven_near x).1
  have hx : (x : ℚ) < n := by exact_mod_cast h
  have hlt : (roundHalfEven x : ℚ) < n + 1 := by linarith
  have hlt' : roundHalfEven x < n + 1 := by exact_mod_cast hlt
  omega

theorem fixedText_length {places size : ℕ} {x : ℚ≥0} (h : Below size x) :
    (fixedText places x).length ≤ size + places + 2 := by
  have hunits : x * 10 ^ places < ((10 ^ (size + places) : ℕ) : ℚ≥0) := by
    push_cast
    rw [pow_add]
    exact mul_lt_mul_of_pos_right h (by positivity)
  have hround := roundHalfEven_le hunits
  have hwhole : roundHalfEven (x * 10 ^ places) / 10 ^ places < 10 ^ (size + 1) := by
    rw [Nat.div_lt_iff_lt_mul (by positivity)]
    calc roundHalfEven (x * 10 ^ places) ≤ 10 ^ (size + places) := hround
      _ < 10 ^ (size + places) * 10 := lt_mul_of_one_lt_right (by positivity) (by decide)
      _ = 10 ^ (size + 1) * 10 ^ places := by ring
  have hdigits := (Nat.length_toDigits_le_iff (by decide) (Nat.succ_pos size)).mpr hwhole
  simp only [fixedText, unitsText, List.length_append, List.length_cons, lastDigits_length]
  omega

end Cherum.FixedDecimal
