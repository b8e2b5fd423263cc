import Cherum.ConnectionStatus
import Cherum.LastConnection

/-! The time of the last ping on its way to the browser: the text in the table,
the text in the answer, and the date the browser makes of it, which is the
instant of the ping again. -/

namespace Cherum.ConnectionTime
open CivilCalendar ConnectionStatus DateTimeText FixedDecimal HttpMessages LastConnection

theorem dayFromYear_eq {year : ℕ} (h : 1 ≤ year) :
    dayFromYear year = daysBeforeYear year - 719162 := by
  unfold dayFromYear daysBeforeYear
  omega

theorem timeValue_eq (t : DateTime) : timeValue t = 1000 * t.seconds := by
  have hyear := dayFromYear_eq t.date.year_pos
  simp only [timeValue, hyear, DateTime.seconds, DateTime.epoch, DateTime.secondOfDay, Date.ordinal]
  push_cast
  ring

theorem replaceFirst_append {old new : Char} {first : List Char} (h : old ∉ first)
    (rest : List Char) :
    replaceFirst old new (first ++ old :: rest) = first ++ new :: rest := by
  induction first with
  | nil => exact if_pos rfl
  | cons c first ih =>
    rw [List.mem_cons, not_or] at h
    rw [List.cons_append, replaceFirst, if_neg (Ne.symm h.1), ih h.2, List.cons_append]

theorem blank_notMem_dateText (d : Date) : ' ' ∉ dateText d := by
  have hdigits : ∀ width n, ' ' ∉ lastDigits width n := by
    intro width n h
    exact absurd (lastDigits_isDigit h) (by decide)
  simp [dateText, hdigits]

theorem isoTime_str {a : Aware} (h : a.time.date.year ≤ 9999) :
    isoTime (replaceFirst ' ' 'T' a.str) = some (1000 * a.instant) := by
  have htext : replaceFirst ' ' 'T' a.str = dateTimeText 'T' a.time ++ offsetText a.zone := by
    simp only [Aware.str, dateTimeText, List.append_assoc, List.cons_append]
    exact replaceFirst_append (blank_notMem_dateText a.time.date) _
  have hvalue : timeValue a.time - a.zone.minutes * 60000 = 1000 * a.instant := by
    rw [timeValue_eq, Aware.instant]
    ring
  simp only [htext, isoTime, readDateTime_text h, readOffset_text, Option.bind_eq_bind,
    Option.bind_some, Option.pure_def, hvalue]

theorem isTime_str {a : Aware} (h : a.time.date.year ≤ 9999) : isTime a.str = true := by
  have hiso := isoTime_str h
  refine decide_eq_true ⟨fun hnil => ?_, fun hnever => ?_⟩
  · rw [hnil] at hiso
    cases hiso
  · rw [hnever] at hiso
    cases hiso

/-- The answer to the page is the instant of the latest ping, told in the zone of
central Mexico, and the page is connected exactly when that is less than ten seconds
ago. -/
theorem last_connection_survives (b : Browser) (page : Page) (now : ℤ) {pings : List DateTime}
    (hne : pings ≠ []) (hyears : ∀ p ∈ pings, 1970 ≤ p.date.year ∧ p.date.year ≤ 9999)
    {query : Option (List Char)} (hquery : Selects (pings.map currentTimestamp) query) :
    ∃ t ∈ pings, (∀ p ∈ pings, p.seconds ≤ t.seconds) ∧
      ∃ text, lastConnection query = ⟨200, .text text⟩ ∧
        (∃ answer : Aware, text = String.ofList answer.str ∧ answer.zone = centralMexicoTz ∧
          answer.instant = t.seconds) ∧
        dateOf b text.toList = some (1000 * t.seconds) ∧
        ((updateConnectionStatus b page (.answered text.toList now)).connected = true ↔
          now - 1000 * t.seconds < 10000) := by
  obtain ⟨t, ht, hrow, hlatest⟩ := selects_latest (fun p hp => (hyears p hp).2) hne hquery
  have hfirst : 1 < t.date.year := lt_of_lt_of_le (by decide) (hyears t ht).1
  obtain ⟨answer, hinstant, hyear, hzone, hanswer⟩ :=
    lastConnection_currentTimestamp hfirst (hyears t ht).2
  have hdate : dateOf b answer.str = some (1000 * t.seconds) := by
    rw [← hinstant]
    exact b.parse_iso _ _ (isoTime_str hyear)
  refine ⟨t, ht, hlatest, String.ofList answer.str, by rw [hrow, hanswer],
    ⟨answer, rfl, hzone, hinstant⟩, ?_, ?_⟩
  · rw [String.toList_ofList, hdate]
  · rw [String.toList_ofList, answered_connected]
    simp only [findsPing, isTime_str hyear, hdate, isRecent, Bool.true_and, decide_eq_true_eq]

def marchPing : DateTime where
  date := ⟨2024, 3, 1, by decide, by decide, by decide, by decide, by decide⟩
  hour := 3
  minute := 0
  second := 0
  hour_lt := by decide
  minute_lt := by decide
  second_lt := by decide

/-- In Mexico it is still the evening of the leap day; the browser is back at the ping. -/
theorem leap_day_survives : ∃ text, lastConnection (some (currentTimestamp marchPing)) =
      ⟨200, .text text⟩ ∧
    dateOf strict text.toList = some 1709262000000 ∧
    ((updateConnectionStatus strict (index "Never")
      (.answered text.toList 1709262009999)).connected = true ↔
        (1709262009999 : ℤ) - 1709262000000 < 10000) := by
  have hselects : Selects ([marchPing].map currentTimestamp) (some (currentTimestamp marchPing)) :=
    ⟨List.mem_cons_self, fun q hq => (List.mem_singleton.mp hq).le⟩
  have hseconds : 1000 * marchPing.seconds = 1709262000000 := by decide
  obtain ⟨t, ht, _, text, hanswer, _, hdate, hconnected⟩ := last_connection_survives strict
    (index "Never") 1709262009999 (List.cons_ne_nil _ _) (by decide) hselects
  rw [List.mem_singleton.mp ht, hseconds] at hdate hconnected
  exact ⟨text, hanswer, hdate, hconnected⟩

end Cherum.ConnectionTime
