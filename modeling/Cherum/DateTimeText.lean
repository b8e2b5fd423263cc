import Cherum.CivilCalendar
import Cherum.PythonFloat

/-! Dates and times as texts of fixed width, `YYYY-MM-DD`, a separator and
`hh:mm:ss`, and offsets from UTC as `+hh:mm` or `-hh:mm`. The texts are read
back exactly, and their order is the order of the times. -/

namespace Cherum.DateTimeText
open CivilCalendar FixedDecimal PythonFloat

def readDigits (width : ℕ) (text : List Char) : Option (ℕ × List Char) :=
  if width ≤ text.length then
    (digits? (text.take width)).map fun n => (n, text.drop width)
  else none

def expect (c : Char) : List Char → Option (List Char)
  | [] => none
  | d :: rest => if d = c then some rest else none

def dateText (d : Date) : List Char :=
  lastDigits 4 d.year ++ '-' :: (lastDigits 2 d.month ++ '-' :: lastDigits 2 d.day)

def timeText (t : DateTime) : List Char :=
  lastDigits 2 t.hour ++ ':' :: (lastDigits 2 t.minute ++ ':' :: lastDigits 2 t.second)

def dateTimeText (separator : Char) (t : DateTime) : List Char :=
  dateText t.date ++ separator :: timeText t

def date? (year month day : ℕ) : Option Date :=
  if h : 1 ≤ year ∧ (1 ≤ month ∧ month ≤ 12) ∧ 1 ≤ day ∧ day ≤ daysInMonth year month then
    some ⟨year, month, day, h.1, h.2.1.1, h.2.1.2, h.2.2.1, h.2.2.2⟩
  else none

def dateTime? (date : Date) (hour minute second : ℕ) : Option DateTime :=
  if h : hour < 24 ∧ minute < 60 ∧ second < 60 then
    some ⟨date, hour, minute, second, h.1, h.2.1, h.2.2⟩
  else none

def readDate (text : List Char) : Option (Date × List Char) := do
  let (year, text) ← readDigits 4 text
  let text ← expect '-' text
  let (month, text) ← readDigits 2 text
  let text ← expect '-' text
  let (day, text) ← readDigits 2 text
  let date ← date? year month day
  return (date, text)

def readDateTime (separator : Char) (text : List Char) : Option (DateTime × List Char) := do
  let (date, text) ← readDate text
  let text ← expect separator text
  let (hour, text) ← readDigits 2 text
  let text ← expect ':' text
  let (minute, text) ← readDigits 2 text
  let text ← expect ':' text
  let (second, text) ← readDigits 2 text
  let t ← dateTime? date hour minute second
  return (t, text)

/-- A fixed offset from UTC, of less than a day in either direction. -/
structure Zone where
  minutes : ℤ
  low : -1440 < minutes
  high : minutes < 1440

def offsetText (zone : Zone) : List Char :=
  (if zone.minutes < 0 then '-' else '+') ::
    (lastDigits 2 (zone.minutes.natAbs / 60) ++ ':' :: lastDigits 2 (zone.minutes.natAbs % 60))

def readOffset : List Char → Option ℤ
  | [] => none
  | sign :: text => do
    let (hours, text) ← readDigits 2 text
    let text ← expect ':' text
    let (minutes, text) ← readDigits 2 text
    let total : ℤ := hours * 60 + minutes
    if text = [] ∧ hours < 24 ∧ minutes < 60 then
      if sign = '+' then some total else if sign = '-' then some (-total) else none
    else none

theorem digits?_lastDigits {width n : ℕ} (hwidth : 0 < width) (h : n < 10 ^ width) :
    digits? (lastDigits width n) = some n := by
  have hne : lastDigits width n ≠ [] := by
    refine List.ne_nil_of_length_pos ?_
    rwa [lastDigits_length]
  have hall : (lastDigits width n).all Char.isDigit = true :=
    List.all_eq_true.mpr fun c hc => lastDigits_isDigit hc
  rw [digits?, if_pos ⟨hne, hall⟩, ofDigitChars_lastDigits, Nat.zero_mul, Nat.zero_add,
    Nat.mod_eq_of_lt h]

theorem readDigits_lastDigits {width n : ℕ} (hwidth : 0 < width) (h : n < 10 ^ width)
    (rest : List Char) : readDigits width (lastDigits width n ++ rest) = some (n, rest) := by
  have hlength := lastDigits_length width n
  have htake : (lastDigits width n ++ rest).take width = lastDigits width n :=
    List.take_left' hlength
  have hdrop : (lastDigits width n ++ rest).drop width = rest := List.drop_left' hlength
  have hlong : width ≤ (lastDigits width n ++ rest).length := by
    rw [List.length_append, hlength]
    exact Nat.le_add_right _ _
  rw [readDigits, if_pos hlong, htake, hdrop, digits?_lastDigits hwidth h]
  rfl

@[simp] theorem expect_cons (c : Char) (rest : List Char) : expect c (c :: rest) = some rest :=
  if_pos rfl

theorem readTwo {n : ℕ} (h : n < 100) (rest : List Char) :
    readDigits 2 (lastDigits 2 n ++ rest) = some (n, rest) :=
  readDigits_lastDigits (by decide) h rest

theorem day_lt (d : Date) : d.day < 100 := by
  refine d.day_le.trans_lt ?_
  unfold daysInMonth
  split_ifs <;> decide

theorem readDate_text {d : Date} (h : d.year ≤ 9999) (rest : List Char) :
    readDate (dateText d ++ rest) = some (d, rest) := by
  have hyear : ∀ rest, readDigits 4 (lastDigits 4 d.year ++ rest) = some (d.year, rest) :=
    readDigits_lastDigits (by decide) (Nat.lt_succ_of_le h)
  have hmonth : d.month < 100 := d.month_le.trans_lt (by decide)
  have hdate : date? d.year d.month d.day = some d :=
    dif_pos ⟨d.year_pos, ⟨d.month_pos, d.month_le⟩, d.day_pos, d.day_le⟩
  simp only [readDate, dateText, List.append_assoc, List.cons_append, hyear, readTwo hmonth,
    readTwo (day_lt d), expect_cons, hdate, Option.bind_eq_bind, Option.bind_some, Option.pure_def]

theorem readDateTime_text {t : DateTime} (h : t.date.year ≤ 9999) (separator : Char)
    (rest : List Char) :
    readDateTime separator (dateTimeText separator t ++ rest) = some (t, rest) := by
  have hhour : t.hour < 100 := t.hour_lt.trans (by decide)
  have hminute : t.minute < 100 := t.minute_lt.trans (by decide)
  have hsecond : t.second < 100 := t.second_lt.trans (by decide)
  have htime : dateTime? t.date t.hour t.minute t.second = some t :=
    dif_pos ⟨t.hour_lt, t.minute_lt, t.second_lt⟩
  simp only [readDateTime, dateTimeText, timeText, List.append_assoc, List.cons_append,
    readDate_text h, readTwo hhour, readTwo hminute, readTwo hsecond, expect_cons, htime,
    Option.bind_eq_bind, Option.bind_some, Option.pure_def]

theorem readOffset_text (zone : Zone) : readOffset (offsetText zone) = some zone.minutes := by
  have hlow := zone.low
  have hhigh := zone.high
  have hhours : zone.minutes.natAbs / 60 < 24 := by omega
  have hminutes : zone.minutes.natAbs % 60 < 60 := Nat.mod_lt _ (by decide)
  have hlast := readTwo (hminutes.trans (by decide)) []
  rw [List.append_nil] at hlast
  simp only [readOffset, offsetText, readTwo (hhours.trans (by decide)), hlast, expect_cons,
    Option.bind_eq_bind, Option.bind_some, hhours, hminutes, and_self, if_true]
  by_cases hneg : zone.minutes < 0
  · have hsign : '-' ≠ '+' := by decide
    simp only [hneg, hsign, if_true, if_false]
    congr 1
    omega
  · simp only [hneg, if_true, if_false]
    congr 1
    omega

theorem append_lt_append {first second x y : List Char} (h : first.length = second.length) :
    first ++ x < second ++ y ↔ first < second ∨ first = second ∧ x < y := by
  induction first generalizing second with
  | nil => simp [List.length_eq_zero_iff.mp h.symm]
  | cons c first ih =>
    cases second with
    | nil => cases h
    | cons d second =>
      simp only [List.cons_append, List.cons_lt_cons_iff, List.cons.injEq,
        ih (Nat.succ.inj h)]
      tauto

theorem singleton_digit_lt {m n : ℕ} (hm : m < 10) (hn : n < 10) :
    [Nat.digitChar m] < [Nat.digitChar n] ↔ m < n := by
  have hdigits : ∀ m < 10, ∀ n < 10, Nat.digitChar m < Nat.digitChar n ↔ m < n := by decide
  rw [List.cons_lt_cons_iff, hdigits m hm n hn]
  simp

theorem lastDigits_inj {width m n : ℕ} (hm : m < 10 ^ width) (hn : n < 10 ^ width) :
    lastDigits width m = lastDigits width n ↔ m = n := by
  refine ⟨fun h => ?_, fun h => by rw [h]⟩
  have hvalue := congrArg (fun text => Nat.ofDigitChars 10 text 0) h
  simpa only [ofDigitChars_lastDigits, Nat.zero_mul, Nat.zero_add, Nat.mod_eq_of_lt hm,
    Nat.mod_eq_of_lt hn] using hvalue

theorem lastDigits_lt {width m n : ℕ} (hm : m < 10 ^ width) (hn : n < 10 ^ width) :
    lastDigits width m < lastDigits width n ↔ m < n := by
  induction width generalizing m n with
  | zero =>
    rw [Nat.lt_one_iff.mp hm, Nat.lt_one_iff.mp hn]
    simp
  | succ width ih =>
    have hm' : m / 10 < 10 ^ width := Nat.div_lt_of_lt_mul (by rwa [← Nat.pow_succ'])
    have hn' : n / 10 < 10 ^ width := Nat.div_lt_of_lt_mul (by rwa [← Nat.pow_succ'])
    have hlength : (lastDigits width (m / 10)).length = (lastDigits width (n / 10)).length := by
      rw [lastDigits_length, lastDigits_length]
    rw [lastDigits, lastDigits, append_lt_append hlength, ih hm' hn', lastDigits_inj hm' hn',
      singleton_digit_lt (Nat.mod_lt _ (by decide)) (Nat.mod_lt _ (by decide))]
    omega

theorem lastDigits_append_lt {width m n : ℕ} (hm : m < 10 ^ width) (hn : n < 10 ^ width)
    (x y : List Char) :
    lastDigits width m ++ x < lastDigits width n ++ y ↔ m < n ∨ m = n ∧ x < y := by
  have hlength : (lastDigits width m).length = (lastDigits width n).length := by
    rw [lastDigits_length, lastDigits_length]
  rw [append_lt_append hlength, lastDigits_lt hm hn, lastDigits_inj hm hn]

theorem cons_lt_cons (c : Char) (x y : List Char) : c :: x < c :: y ↔ x < y := by
  simp

theorem dateText_lt {d e : Date} (hd : d.year ≤ 9999) (he : e.year ≤ 9999) :
    dateText d < dateText e ↔ d.Before e := by
  have hmonth : ∀ d : Date, d.month < 10 ^ 2 := fun d => d.month_le.trans_lt (by decide)
  have hday : ∀ d : Date, d.day < 10 ^ 2 := day_lt
  unfold dateText Date.Before
  rw [lastDigits_append_lt (Nat.lt_succ_of_le hd) (Nat.lt_succ_of_le he), cons_lt_cons,
    lastDigits_append_lt (hmonth d) (hmonth e), cons_lt_cons, lastDigits_lt (hday d) (hday e)]

theorem timeText_lt (t u : DateTime) :
    timeText t < timeText u ↔ t.hour < u.hour ∨ t.hour = u.hour ∧
      (t.minute < u.minute ∨ t.minute = u.minute ∧ t.second < u.second) := by
  have hhour : ∀ t : DateTime, t.hour < 10 ^ 2 := fun t => t.hour_lt.trans (by decide)
  have hminute : ∀ t : DateTime, t.minute < 10 ^ 2 := fun t => t.minute_lt.trans (by decide)
  have hsecond : ∀ t : DateTime, t.second < 10 ^ 2 := fun t => t.second_lt.trans (by decide)
  unfold timeText
  rw [lastDigits_append_lt (hhour t) (hhour u), cons_lt_cons,
    lastDigits_append_lt (hminute t) (hminute u), cons_lt_cons,
    lastDigits_lt (hsecond t) (hsecond u)]

theorem dateText_length (d : Date) : (dateText d).length = 10 := by
  simp [dateText, lastDigits_length]

theorem dateText_inj {d e : Date} (hd : d.year ≤ 9999) (he : e.year ≤ 9999)
    (h : dateText d = dateText e) : d = e := by
  have hread := readDate_text hd []
  rw [h, readDate_text he] at hread
  exact (congrArg Prod.fst (Option.some.inj hread)).symm

theorem dateTimeText_lt {t u : DateTime} (ht : t.date.year ≤ 9999) (hu : u.date.year ≤ 9999)
    (separator : Char) : dateTimeText separator t < dateTimeText separator u ↔ t.Before u := by
  have hlength : (dateText t.date).length = (dateText u.date).length := by
    rw [dateText_length, dateText_length]
  have hdate : dateText t.date = dateText u.date ↔ t.date = u.date :=
    ⟨dateText_inj ht hu, fun h => by rw [h]⟩
  unfold dateTimeText DateTime.Before
  rw [append_lt_append hlength, dateText_lt ht hu, hdate, cons_lt_cons, timeText_lt]

theorem dateTimeText_inj {t u : DateTime} (ht : t.date.year ≤ 9999) (hu : u.date.year ≤ 9999)
    {separator : Char} (h : dateTimeText separator t = dateTimeText separator u) : t = u := by
  have hread := readDateTime_text ht separator []
  rw [h, readDateTime_text hu] at hread
  exact (congrArg Prod.fst (Option.some.inj hread)).symm

end Cherum.DateTimeText
