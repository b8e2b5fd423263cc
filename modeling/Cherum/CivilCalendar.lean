import Mathlib

/-! Dates of the proleptic Gregorian calendar from year 1 on, times of day in
whole seconds, and the number of the day and of the second they stand for. The
lemmas move a date by a day, a time by less than a day, and compare them. -/

namespace Cherum.CivilCalendar

def IsLeap (year : ℕ) : Prop := year % 4 = 0 ∧ (year % 100 ≠ 0 ∨ year % 400 = 0)

instance : DecidablePred IsLeap :=
  fun year => inferInstanceAs (Decidable (year % 4 = 0 ∧ (year % 100 ≠ 0 ∨ year % 400 = 0)))

def daysInMonth (year month : ℕ) : ℕ :=
  if month = 2 then if IsLeap year then 29 else 28
  else if month = 4 ∨ month = 6 ∨ month = 9 ∨ month = 11 then 30 else 31

@[ext] structure Date where
  year : ℕ
  month : ℕ
  day : ℕ
  year_pos : 1 ≤ year
  month_pos : 1 ≤ month
  month_le : month ≤ 12
  day_pos : 1 ≤ day
  day_le : day ≤ daysInMonth year month
  deriving DecidableEq

def daysInYear (year : ℕ) : ℕ := if IsLeap year then 366 else 365

def daysBeforeYear (year : ℕ) : ℕ :=
  (year - 1) * 365 + (year - 1) / 4 - (year - 1) / 100 + (year - 1) / 400

def daysBeforeMonth (year month : ℕ) : ℕ := ∑ m ∈ Finset.Ico 1 month, daysInMonth year m

/-- The number of the day; 1 January of year 1 is day 1. -/
def Date.ordinal (d : Date) : ℕ := daysBeforeYear d.year + daysBeforeMonth d.year d.month + d.day

theorem daysInMonth_pos (year month : ℕ) : 1 ≤ daysInMonth year month := by
  unfold daysInMonth
  split_ifs <;> decide

theorem daysInMonth_december (year : ℕ) : daysInMonth year 12 = 31 := by
  simp [daysInMonth]

theorem daysBeforeYear_succ {year : ℕ} (h : 1 ≤ year) :
    daysBeforeYear (year + 1) = daysBeforeYear year + daysInYear year := by
  obtain ⟨k, hk⟩ := Nat.exists_eq_add_of_le' h
  have hfour : (k + 1) / 4 = k / 4 + if 4 ∣ k + 1 then 1 else 0 := Nat.succ_div
  have hcentury : (k + 1) / 100 = k / 100 + if 100 ∣ k + 1 then 1 else 0 := Nat.succ_div
  have hcycle : (k + 1) / 400 = k / 400 + if 400 ∣ k + 1 then 1 else 0 := Nat.succ_div
  have hleap : IsLeap (k + 1) ↔ 4 ∣ k + 1 ∧ (¬ 100 ∣ k + 1 ∨ 400 ∣ k + 1) := by
    simp only [IsLeap, Nat.dvd_iff_mod_eq_zero, ne_eq]
  simp only [hk, daysBeforeYear, daysInYear, hleap, Nat.add_sub_cancel, hfour, hcentury, hcycle]
  split_ifs <;> omega

theorem daysBeforeYear_mono : Monotone daysBeforeYear := by
  refine monotone_nat_of_le_succ fun year => ?_
  cases year with
  | zero => decide
  | succ year =>
    rw [daysBeforeYear_succ (Nat.le_add_left 1 year)]
    exact Nat.le_add_right _ _

theorem daysBeforeMonth_succ {month : ℕ} (year : ℕ) (h : 1 ≤ month) :
    daysBeforeMonth year (month + 1) = daysBeforeMonth year month + daysInMonth year month :=
  Finset.sum_Ico_succ_top h _

theorem daysBeforeMonth_mono (year : ℕ) {first second : ℕ} (h : first ≤ second) :
    daysBeforeMonth year first ≤ daysBeforeMonth year second :=
  Finset.sum_le_sum_of_subset (Finset.Ico_subset_Ico_right h)

theorem daysBeforeMonth_first (year : ℕ) : daysBeforeMonth year 1 = 0 := by
  simp [daysBeforeMonth]

theorem daysBeforeMonth_thirteen (year : ℕ) : daysBeforeMonth year 13 = daysInYear year := by
  have hmonths : Finset.Ico 1 13 = {1, 2, 3, 4, 5, 6, 7, 8, 9, 10, 11, 12} := by decide
  rw [daysBeforeMonth, hmonths]
  by_cases h : IsLeap year <;> simp [daysInMonth, daysInYear, h]

namespace Date

def pred (d : Date) : Option Date :=
  if hday : 1 < d.day then
    some { d with
      day := d.day - 1
      day_pos := Nat.le_sub_one_of_lt hday
      day_le := (Nat.sub_le _ _).trans d.day_le }
  else if hmonth : 1 < d.month then
    some { d with
      month := d.month - 1
      day := daysInMonth d.year (d.month - 1)
      month_pos := Nat.le_sub_one_of_lt hmonth
      month_le := (Nat.sub_le _ _).trans d.month_le
      day_pos := daysInMonth_pos _ _
      day_le := le_rfl }
  else if hyear : 1 < d.year then
    some {
      year := d.year - 1
      month := 12
      day := 31
      year_pos := Nat.le_sub_one_of_lt hyear
      month_pos := by decide
      month_le := le_rfl
      day_pos := by decide
      day_le := (daysInMonth_december _).ge }
  else none

def succ (d : Date) : Date :=
  if hday : d.day < daysInMonth d.year d.month then
    { d with
      day := d.day + 1
      day_pos := Nat.le_add_left _ _
      day_le := hday }
  else if hmonth : d.month < 12 then
    { d with
      month := d.month + 1
      day := 1
      month_pos := Nat.le_add_left _ _
      month_le := hmonth
      day_pos := le_rfl
      day_le := daysInMonth_pos _ _ }
  else
    { year := d.year + 1
      month := 1
      day := 1
      year_pos := Nat.le_add_left _ _
      month_pos := le_rfl
      month_le := by decide
      day_pos := le_rfl
      day_le := daysInMonth_pos _ _ }

theorem pred_of_year {d : Date} (h : 1 < d.year) :
    ∃ e, d.pred = some e ∧ e.year ≤ d.year := by
  unfold pred
  split_ifs with hday hmonth
  · exact ⟨_, rfl, le_rfl⟩
  · exact ⟨_, rfl, le_rfl⟩
  · exact ⟨_, rfl, Nat.sub_le _ _⟩

theorem ordinal_pred {d e : Date} (h : d.pred = some e) : e.ordinal + 1 = d.ordinal := by
  have hday_pos := d.day_pos
  have hmonth_pos := d.month_pos
  unfold pred at h
  split_ifs at h with hday hmonth hyear
  · cases h
    simp only [ordinal]
    omega
  · cases h
    have hsucc := daysBeforeMonth_succ d.year (Nat.le_sub_one_of_lt hmonth)
    rw [Nat.sub_add_cancel hmonth_pos] at hsucc
    simp only [ordinal]
    omega
  · cases h
    have hsucc := daysBeforeYear_succ (Nat.le_sub_one_of_lt hyear)
    rw [Nat.sub_add_cancel d.year_pos, ← daysBeforeMonth_thirteen,
      daysBeforeMonth_succ _ (by decide), daysInMonth_december] at hsucc
    have hfirst : d.month = 1 := by omega
    simp only [ordinal, hfirst, daysBeforeMonth_first]
    omega

theorem ordinal_succ (d : Date) : d.succ.ordinal = d.ordinal + 1 := by
  have hday_le := d.day_le
  unfold succ
  split_ifs with hday hmonth
  · simp only [ordinal]
    omega
  · have hsucc := daysBeforeMonth_succ d.year d.month_pos
    simp only [ordinal]
    omega
  · have hlast : d.month = 12 := le_antisymm d.month_le (not_lt.mp hmonth)
    have hsucc := daysBeforeMonth_succ d.year d.month_pos
    have hyear := daysBeforeYear_succ d.year_pos
    rw [hlast, daysBeforeMonth_thirteen] at hsucc
    simp only [ordinal, hlast, daysBeforeMonth_first]
    rw [hlast] at hday hday_le
    omega

def Before (d e : Date) : Prop :=
  d.year < e.year ∨ d.year = e.year ∧ (d.month < e.month ∨ d.month = e.month ∧ d.day < e.day)

theorem ordinal_lt {d e : Date} (h : d.Before e) : d.ordinal < e.ordinal := by
  have hday := d.day_le
  have hday' := e.day_pos
  have hmonth := daysBeforeMonth_succ d.year d.month_pos
  rcases h with h | ⟨hyear, h | ⟨heq, h⟩⟩
  · have hyear := daysBeforeYear_succ d.year_pos
    rw [← daysBeforeMonth_thirteen] at hyear
    have hlater : daysBeforeYear (d.year + 1) ≤ daysBeforeYear e.year := daysBeforeYear_mono h
    have hend : daysBeforeMonth d.year (d.month + 1) ≤ daysBeforeMonth d.year 13 :=
      daysBeforeMonth_mono d.year (Nat.add_le_add_right d.month_le 1)
    unfold ordinal
    omega
  · have hlater : daysBeforeMonth d.year (d.month + 1) ≤ daysBeforeMonth d.year e.month :=
      daysBeforeMonth_mono d.year h
    unfold ordinal
    rw [← hyear]
    omega
  · unfold ordinal
    rw [← hyear, ← heq]
    omega

end Date

@[ext] structure DateTime where
  date : Date
  hour : ℕ
  minute : ℕ
  second : ℕ
  hour_lt : hour < 24
  minute_lt : minute < 60
  second_lt : second < 60
  deriving DecidableEq

namespace DateTime

def epoch : ℕ := 719163

def secondOfDay (t : DateTime) : ℕ := t.hour * 3600 + t.minute * 60 + t.second

def seconds (t : DateTime) : ℤ := ((t.date.ordinal : ℤ) - epoch) * 86400 + t.secondOfDay

def ofSecond (date : Date) (n : ℕ) : DateTime where
  date := date
  hour := n / 3600 % 24
  minute := n / 60 % 60
  second := n % 60
  hour_lt := Nat.mod_lt _ (by decide)
  minute_lt := Nat.mod_lt _ (by decide)
  second_lt := Nat.mod_lt _ (by decide)

/-- The time `offset` seconds later, for less than a day in either direction. -/
def shift (offset : ℤ) (t : DateTime) : Option DateTime :=
  let total := (t.secondOfDay : ℤ) + offset
  if total < 0 then t.date.pred.map fun date => ofSecond date (total + 86400).toNat
  else if total < 86400 then some (ofSecond t.date total.toNat)
  else some (ofSecond t.date.succ (total - 86400).toNat)

def Before (t u : DateTime) : Prop :=
  t.date.Before u.date ∨ t.date = u.date ∧
    (t.hour < u.hour ∨ t.hour = u.hour ∧
      (t.minute < u.minute ∨ t.minute = u.minute ∧ t.second < u.second))

theorem secondOfDay_lt (t : DateTime) : t.secondOfDay < 86400 := by
  have hhour := t.hour_lt
  have hminute := t.minute_lt
  have hsecond := t.second_lt
  unfold secondOfDay
  omega

theorem secondOfDay_ofSecond (date : Date) {n : ℕ} (h : n < 86400) :
    (ofSecond date n).secondOfDay = n := by
  simp only [secondOfDay, ofSecond]
  omega

theorem seconds_ofSecond (date : Date) {n : ℤ} (hpos : 0 ≤ n) (hlt : n < 86400) :
    (ofSecond date n.toNat).seconds = ((date.ordinal : ℤ) - epoch) * 86400 + n := by
  have hn : n.toNat < 86400 := by omega
  rw [seconds, secondOfDay_ofSecond date hn, Int.toNat_of_nonneg hpos]
  rfl

theorem ofSecond_secondOfDay (t : DateTime) : ofSecond t.date t.secondOfDay = t := by
  have hhour := t.hour_lt
  have hminute := t.minute_lt
  have hsecond := t.second_lt
  ext <;> simp only [ofSecond, secondOfDay] <;> omega

theorem shift_zero (t : DateTime) : t.shift 0 = some t := by
  have hday := t.secondOfDay_lt
  unfold shift
  simp only [add_zero]
  rw [if_neg (by omega), if_pos (by omega), Int.toNat_natCast, ofSecond_secondOfDay]

theorem seconds_shift {offset : ℤ} (hlow : -86400 < offset) (hhigh : offset < 86400)
    {t u : DateTime} (h : t.shift offset = some u) : u.seconds = t.seconds + offset := by
  have hday := t.secondOfDay_lt
  unfold shift at h
  simp only at h
  split_ifs at h with hearlier hsame
  · obtain ⟨date, hdate, hu⟩ := Option.map_eq_some_iff.mp h
    have hordinal := Date.ordinal_pred hdate
    rw [← hu, seconds_ofSecond date (by omega) (by omega), seconds]
    omega
  · rw [← Option.some.inj h, seconds_ofSecond t.date (by omega) hsame, seconds]
    omega
  · have hordinal := Date.ordinal_succ t.date
    rw [← Option.some.inj h, seconds_ofSecond t.date.succ (by omega) (by omega), seconds]
    omega

theorem shift_back {offset : ℤ} (hoffset : offset ≤ 0) {t : DateTime} (ht : 1 < t.date.year) :
    ∃ u, t.shift offset = some u ∧ u.date.year ≤ t.date.year := by
  have hday := t.secondOfDay_lt
  unfold shift
  simp only
  split_ifs with hearlier hsame
  · obtain ⟨date, hdate, hyear⟩ := Date.pred_of_year ht
    exact ⟨_, by rw [hdate, Option.map_some], hyear⟩
  · exact ⟨_, rfl, le_rfl⟩
  · omega

theorem seconds_lt {t u : DateTime} (h : t.Before u) : t.seconds < u.seconds := by
  have hfirst := t.secondOfDay_lt
  have hhour := t.hour_lt
  have hminute := t.minute_lt
  have hsecond := t.second_lt
  have hminute' := u.minute_lt
  have hsecond' := u.second_lt
  unfold seconds
  rcases h with h | ⟨hdate, h⟩
  · have hordinal := Date.ordinal_lt h
    omega
  · have hlater : t.secondOfDay < u.secondOfDay := by
      unfold secondOfDay
      omega
    rw [hdate]
    omega

/-- The time of a second since the start of 1970. -/
def ofSeconds (n : ℕ) : DateTime :=
  ofSecond (Date.succ^[n / 86400] ⟨1970, 1, 1, by decide, Nat.one_pos, by decide, Nat.one_pos, by decide⟩)
    (n % 86400)

theorem ordinal_iterate (d : Date) (days : ℕ) : (Date.succ^[days] d).ordinal = d.ordinal + days := by
  induction days with
  | zero => rfl
  | succ days ih => rw [Function.iterate_succ_apply', Date.ordinal_succ, ih, Nat.add_assoc]

@[simp] theorem seconds_ofSeconds (n : ℕ) : (ofSeconds n).seconds = n := by
  have hlt : n % 86400 < 86400 := Nat.mod_lt _ (by decide)
  have hfirst : Date.ordinal ⟨1970, 1, 1, by decide, by decide, by decide, by decide, by decide⟩ =
      epoch := by decide
  have hdate : (ofSeconds n).date.ordinal = epoch + n / 86400 := by
    rw [← hfirst]
    exact ordinal_iterate _ _
  have hday : (ofSeconds n).secondOfDay = n % 86400 := secondOfDay_ofSecond _ hlt
  rw [seconds, hdate, hday]
  push_cast
  omega

theorem year_of_seconds {t : DateTime} (hfirst : 0 ≤ t.seconds) (hlast : t.seconds < 253402300800) :
    1970 ≤ t.date.year ∧ t.date.year ≤ 9999 := by
  have hday := t.secondOfDay_lt
  have hpos := t.date.day_pos
  have hle := t.date.day_le
  unfold seconds epoch Date.ordinal at hfirst hlast
  constructor
  · by_contra hyear
    have hbefore : daysBeforeYear (t.date.year + 1) ≤ daysBeforeYear 1970 :=
      daysBeforeYear_mono (by omega)
    have hmonths : daysBeforeMonth t.date.year (t.date.month + 1) ≤
        daysBeforeMonth t.date.year 13 :=
      daysBeforeMonth_mono _ (Nat.add_le_add_right t.date.month_le 1)
    rw [daysBeforeYear_succ t.date.year_pos, ← daysBeforeMonth_thirteen] at hbefore
    rw [daysBeforeMonth_succ _ t.date.month_pos] at hmonths
    have hstart : daysBeforeYear 1970 = 719162 := by decide
    omega
  · by_contra hyear
    have hafter : daysBeforeYear 10000 ≤ daysBeforeYear t.date.year := daysBeforeYear_mono (by omega)
    have hend : daysBeforeYear 10000 = 3652059 := by decide
    omega

example :
    Date.ordinal ⟨1970, 1, 1, by decide, by decide, by decide, by decide, by decide⟩ = epoch ∧
    Date.ordinal ⟨2000, 2, 29, by decide, by decide, by decide, by decide, by decide⟩ = 730179 := by
  decide

end DateTime

end Cherum.CivilCalendar
