import Cherum.DateTimeText
import Cherum.FirstByKey
import Cherum.HttpMessages

/-! `GET /last/connection`. SQLite keeps the time of a ping as a text, the
converter of db.py makes a naive datetime of it, the handler relabels that as
UTC, moves it to the zone of central Mexico and prints it. -/

namespace Cherum.LastConnection
open CivilCalendar DateTimeText FirstByKey HttpMessages

def currentTimestamp (t : DateTime) : List Char := dateTimeText ' ' t

/-- The converter's `datetime.fromisoformat`, on texts of the form that
`CURRENT_TIMESTAMP` writes. -/
def fromisoformat (text : List Char) : Option DateTime :=
  (readDateTime ' ' text).bind fun result => if result.2 = [] then some result.1 else none

structure Aware where
  time : DateTime
  zone : Zone

def utcTz : Zone := ⟨0, by decide, by decide⟩

def centralMexicoTz : Zone := ⟨-360, by decide, by decide⟩

/-- A datetime plus minutes; beyond year 9999 or before year 1 it is an `OverflowError`. -/
def plusMinutes (minutes : ℤ) (t : DateTime) : Option DateTime :=
  (t.shift (minutes * 60)).filter fun u => u.date.year ≤ 9999

def Aware.astimezone (zone : Zone) (a : Aware) : Option Aware := do
  let utc ← plusMinutes (-a.zone.minutes) a.time
  let time ← plusMinutes zone.minutes utc
  return ⟨time, zone⟩

/-- `str` of a datetime without microseconds. -/
def Aware.str (a : Aware) : List Char := dateTimeText ' ' a.time ++ offsetText a.zone

def Aware.instant (a : Aware) : ℤ := a.time.seconds - a.zone.minutes * 60

/-- The answers of `SELECT created_at FROM pings ORDER BY created_at DESC LIMIT 1`. -/
def Selects (createdAt : List (List Char)) (query : Option (List Char)) : Prop :=
  FirstDesc id createdAt query

def localTime (createdAt : List Char) : Option Aware := do
  let naive ← fromisoformat createdAt
  (Aware.mk naive utcTz).astimezone centralMexicoTz

def lastConnection : Option (List Char) → Response
  | none => ⟨200, .text "Never"⟩
  | some createdAt =>
    match localTime createdAt with
    | some answer => ⟨200, .text (String.ofList answer.str)⟩
    | none => internalServerError

theorem fromisoformat_currentTimestamp {t : DateTime} (h : t.date.year ≤ 9999) :
    fromisoformat (currentTimestamp t) = some t := by
  have hread := readDateTime_text h ' ' []
  rw [List.append_nil] at hread
  simp [fromisoformat, currentTimestamp, hread]

theorem seconds_plusMinutes {minutes : ℤ} (hlow : -1440 < minutes) (hhigh : minutes < 1440)
    {t u : DateTime} (h : plusMinutes minutes t = some u) :
    u.seconds = t.seconds + minutes * 60 ∧ u.date.year ≤ 9999 := by
  obtain ⟨hshift, hyear⟩ := Option.filter_eq_some_iff.mp h
  exact ⟨DateTime.seconds_shift (by omega) (by omega) hshift, of_decide_eq_true hyear⟩

theorem instant_astimezone {zone : Zone} {a b : Aware} (h : a.astimezone zone = some b) :
    b.instant = a.instant ∧ b.time.date.year ≤ 9999 ∧ b.zone = zone := by
  obtain ⟨utc, hutc, h⟩ := Option.bind_eq_some_iff.mp h
  obtain ⟨time, htime, h⟩ := Option.bind_eq_some_iff.mp h
  have hlow := a.zone.low
  have hhigh := a.zone.high
  obtain ⟨hseconds, _⟩ := seconds_plusMinutes (by omega) (by omega) hutc
  obtain ⟨hseconds', hyear⟩ := seconds_plusMinutes zone.low zone.high htime
  cases h
  refine ⟨?_, hyear, rfl⟩
  simp only [Aware.instant]
  omega

theorem plusMinutes_back {minutes : ℤ} (hminutes : minutes ≤ 0) {t : DateTime}
    (hfirst : 1 < t.date.year) (hlast : t.date.year ≤ 9999) :
    ∃ u, plusMinutes minutes t = some u := by
  obtain ⟨u, hu, hyear⟩ := DateTime.shift_back (by omega : minutes * 60 ≤ 0) hfirst
  exact ⟨u, Option.filter_eq_some_iff.mpr ⟨hu, decide_eq_true (hyear.trans hlast)⟩⟩

theorem plusMinutes_zero {t : DateTime} (h : t.date.year ≤ 9999) : plusMinutes 0 t = some t := by
  unfold plusMinutes
  rw [zero_mul, DateTime.shift_zero]
  exact Option.filter_eq_some_iff.mpr ⟨rfl, decide_eq_true h⟩

theorem localTime_currentTimestamp {t : DateTime} (hfirst : 1 < t.date.year)
    (hlast : t.date.year ≤ 9999) :
    ∃ answer : Aware, localTime (currentTimestamp t) = some answer ∧ answer.instant = t.seconds ∧
      answer.time.date.year ≤ 9999 ∧ answer.zone = centralMexicoTz := by
  have hback : centralMexicoTz.minutes ≤ 0 := by decide
  obtain ⟨time, htime⟩ := plusMinutes_back hback hfirst hlast
  have hutc : plusMinutes (-utcTz.minutes) t = some t := plusMinutes_zero hlast
  have hmoved : (Aware.mk t utcTz).astimezone centralMexicoTz = some ⟨time, centralMexicoTz⟩ := by
    simp only [Aware.astimezone, hutc, Option.bind_eq_bind, Option.bind_some]
    exact Option.bind_eq_some_iff.mpr ⟨time, htime, rfl⟩
  obtain ⟨hinstant, hyear, hzone⟩ := instant_astimezone hmoved
  refine ⟨⟨time, centralMexicoTz⟩, ?_, ?_, hyear, hzone⟩
  · rw [localTime, fromisoformat_currentTimestamp hlast, Option.bind_eq_bind, Option.bind_some,
      hmoved]
  · rw [hinstant, Aware.instant, utcTz, zero_mul, sub_zero]

theorem lastConnection_currentTimestamp {t : DateTime} (hfirst : 1 < t.date.year)
    (hlast : t.date.year ≤ 9999) :
    ∃ answer : Aware, answer.instant = t.seconds ∧ answer.time.date.year ≤ 9999 ∧
      answer.zone = centralMexicoTz ∧
      lastConnection (some (currentTimestamp t)) = ⟨200, .text (String.ofList answer.str)⟩ := by
  obtain ⟨answer, hlocal, hinstant, hyear, hzone⟩ := localTime_currentTimestamp hfirst hlast
  exact ⟨answer, hinstant, hyear, hzone, by simp only [lastConnection, hlocal]⟩

theorem selects_latest {pings : List DateTime} (hyears : ∀ p ∈ pings, p.date.year ≤ 9999)
    (hne : pings ≠ []) {query : Option (List Char)}
    (h : Selects (pings.map currentTimestamp) query) :
    ∃ t ∈ pings, query = some (currentTimestamp t) ∧ ∀ p ∈ pings, p.seconds ≤ t.seconds := by
  cases query with
  | none => exact absurd (List.map_eq_nil_iff.mp h) hne
  | some row =>
    obtain ⟨t, ht, hrow⟩ := List.mem_map.mp h.1
    refine ⟨t, ht, by rw [hrow], fun p hp => ?_⟩
    have hle : currentTimestamp p ≤ row := h.2 _ (List.mem_map_of_mem hp)
    rw [← hrow] at hle
    rcases hle.lt_or_eq with hlt | heq
    · exact (DateTime.seconds_lt ((dateTimeText_lt (hyears p hp) (hyears t ht) ' ').mp hlt)).le
    · rw [dateTimeText_inj (hyears p hp) (hyears t ht) heq]

end Cherum.LastConnection
