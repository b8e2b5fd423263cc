import Cherum.AccessTokens
import Cherum.ConnectionTime

/-! What the page says about the link to the drone, and what the server has seen of
it: a row of `pings` is written by a `/fetch` with a valid token and by nothing else,
`GET /` and `GET /last/connection` read the latest, and the page compares it with its
own clock. Clock readings of the server are seconds since the start of 1970. -/

namespace Cherum.DroneLink
open AccessTokens (Asked Carries Config Incoming PyJwt authorised authorised_iff bearer
  carries_oneToken cherumConfig oneToken)
open AppLifecycle (App Arrival createApp serve serveAll)
open CivilCalendar ConnectionStatus ConnectionTime DateTimeText FixedDecimal LastConnection
open CommandServer (Database)

/-- `strftime("%d/%m/%Y %H:%M:%S")`; the C library does not pad the year. -/
def strftime (t : DateTime) : List Char :=
  lastDigits 2 t.date.day ++ '/' :: (lastDigits 2 t.date.month ++ '/' :: (Nat.toDigits 10 t.date.year ++
    ' ' :: timeText t))

/-- The `last_connection` of the template that `GET /` renders; `none` where the
handler raises. What it computes from `inactivity` is not used. -/
def indexText : Option (List Char) → Option (List Char)
  | none => some "Never".toList
  | some createdAt => (localTime createdAt).map fun answer => strftime answer.time

def createdAt (db : Database) : List (List Char) :=
  db.pings.map fun second => currentTimestamp (DateTime.ofSeconds second)

variable {j : PyJwt} {c : Config}

def Contact (j : PyJwt) (c : Config) (i : Incoming) : Prop :=
  ∃ header query, i.asked = .fetch header query ∧ Carries j c header

def ping? (a : Arrival) : Option ℕ :=
  match a.request with
  | .command (.fetch true _) => some a.now
  | _ => none

variable {texts : PythonJson.Texts}

theorem serve_pings (app : App) (a : Arrival) :
    (serve texts app a).db.pings = app.db.pings ++ (ping? a).toList := by
  obtain ⟨request, now, call, closing⟩ := a
  cases request with
  | command request =>
    cases request with
    | command form =>
      cases form with
      | none => exact (List.append_nil _).symm
      | some text =>
        simp only [serve, AppLifecycle.handle, CommandServer.serve, CommandServer.command, ping?,
          Option.toList_none, List.append_nil]
        split
        · rfl
        · cases app.db.commands.insert text 0 now <;> rfl
    | fetch authorised query =>
      cases authorised with
      | true => rfl
      | false => exact (List.append_nil _).symm
    | done authorised id =>
      simp only [serve, AppLifecycle.handle, CommandServer.serve, CommandServer.done, ping?,
        Option.toList_none, List.append_nil]
      split_ifs <;> rfl
  | _ => exact (List.append_nil _).symm

theorem serveAll_pings (app : App) (arrivals : List Arrival) :
    (serveAll texts app arrivals).db.pings = app.db.pings ++ arrivals.filterMap ping? := by
  induction arrivals generalizing app with
  | nil => exact (List.append_nil _).symm
  | cons a rest ih =>
    have hrest : serveAll texts app (a :: rest) = serveAll texts (serve texts app a) rest := rfl
    rw [hrest, ih, serve_pings, List.append_assoc, List.filterMap_cons]
    cases ping? a <;> rfl

theorem ping?_arrival (i : Incoming) (second : ℕ) :
    ping? (i.arrival j c) = some second ↔ Contact j c i ∧ i.now = second := by
  obtain ⟨asked, now, call, closing⟩ := i
  cases asked with
  | fetch header query =>
    cases hauthorised : authorised j c header with
    | true =>
      have hcarries := (authorised_iff header).mp hauthorised
      have hcontact : Contact j c ⟨.fetch header query, now, call, closing⟩ :=
        ⟨header, query, rfl, hcarries⟩
      simp [ping?, Incoming.arrival, Asked.request, hauthorised, hcontact]
    | false =>
      have hnot : ¬ Contact j c ⟨.fetch header query, now, call, closing⟩ := by
        rintro ⟨header', query', hasked, hcarries⟩
        obtain ⟨hheader, _⟩ := Asked.fetch.inj hasked
        rw [← hheader, ← authorised_iff, hauthorised] at hcarries
        cases hcarries
      simp [ping?, Incoming.arrival, Asked.request, hauthorised, hnot]
  | _ =>
    refine iff_of_false (fun h => ?_) ?_
    · cases h
    · rintro ⟨⟨_, _, hasked, _⟩, _⟩
      cases hasked

/-- The server has seen the drone in this second: there was a row of it, or a request
has left one. -/
def Seen (db : Database) (j : PyJwt) (c : Config) (incoming : List Incoming) (second : ℕ) : Prop :=
  second ∈ db.pings ∨ ∃ i ∈ incoming, Contact j c i ∧ i.now = second

theorem mem_pings {db : Database} {now : ℤ} {incoming : List Incoming} {second : ℕ} :
    second ∈ (serveAll texts (createApp db now) (incoming.map (Incoming.arrival j c))).db.pings ↔
      Seen db j c incoming second := by
  rw [serveAll_pings, List.mem_append, List.mem_filterMap]
  refine or_congr Iff.rfl ⟨?_, ?_⟩
  · rintro ⟨a, ha, hping⟩
    obtain ⟨i, hi, hia⟩ := List.mem_map.mp ha
    rw [← hia, ping?_arrival] at hping
    exact ⟨i, hi, hping⟩
  · rintro ⟨i, hi, hcontact⟩
    exact ⟨i.arrival j c, List.mem_map_of_mem hi, (ping?_arrival i second).mpr hcontact⟩

def lastSecond : ℕ := 253402300799

/-- The pings are those there were and those of the drone's contacts. The page as it is
served and the answer to its poll both tell the latest time the server has seen the
drone, and the poll finds it connected exactly when the server has seen it less than ten
seconds ago. -/
theorem link_shown (texts : PythonJson.Texts) (j : PyJwt) (c : Config) (db : Database)
    (started : ℤ) (incoming : List Incoming)
    (hclock : ∀ second, Seen db j c incoming second → second ≤ lastSecond)
    {query : Option (List Char)}
    (hquery : Selects (createdAt
      (serveAll texts (createApp db started) (incoming.map (Incoming.arrival j c))).db) query)
    (b : Browser) (page : Page) (now : ℤ) :
    (∀ second, second ∈
        (serveAll texts (createApp db started) (incoming.map (Incoming.arrival j c))).db.pings ↔
      Seen db j c incoming second) ∧
    ∃ shown text, indexText query = some shown ∧ lastConnection query = ⟨200, .text text⟩ ∧
      ((updateConnectionStatus b page (.answered text.toList now)).connected = true ↔
        ∃ second, Seen db j c incoming second ∧ now - 1000 * second < 10000) ∧
      (shown = "Never".toList ∧ text = "Never" ∧ (∀ second, ¬ Seen db j c incoming second) ∨
        ∃ answer : Aware, shown = strftime answer.time ∧ text = String.ofList answer.str ∧
          answer.zone = centralMexicoTz ∧ ∃ latest : ℕ, answer.instant = latest ∧
            Seen db j c incoming latest ∧
              ∀ second, Seen db j c incoming second → second ≤ latest) := by
  let pings := (serveAll texts (createApp db started) (incoming.map (Incoming.arrival j c))).db.pings
  have hmem : ∀ second, second ∈ pings ↔ Seen db j c incoming second := fun _ => mem_pings
  refine ⟨hmem, ?_⟩
  have hselects : Selects ((pings.map DateTime.ofSeconds).map currentTimestamp) query := by
    rw [List.map_map]
    exact hquery
  have hyears : ∀ second ∈ pings, 1970 ≤ (DateTime.ofSeconds second).date.year ∧
      (DateTime.ofSeconds second).date.year ≤ 9999 := by
    intro second hsecond
    have hlast := hclock second ((hmem second).mp hsecond)
    unfold lastSecond at hlast
    refine DateTime.year_of_seconds ?_ ?_ <;> rw [DateTime.seconds_ofSeconds] <;> omega
  by_cases hempty : pings = []
  · rw [hempty] at hselects
    have hnone : ∀ second, ¬ Seen db j c incoming second := by
      intro second hseen
      rw [← hmem, hempty] at hseen
      cases hseen
    cases query with
    | some row => exact absurd hselects.1 List.not_mem_nil
    | none =>
      refine ⟨_, _, rfl, rfl, ?_, .inl ⟨rfl, rfl, hnone⟩⟩
      have hnever : findsPing b (.answered "Never".toList now) = false := by
        simp [findsPing, isTime]
      rw [answered_connected, hnever]
      refine iff_of_false Bool.false_ne_true ?_
      rintro ⟨second, hseen, _⟩
      exact hnone second hseen
  · have hbound : ∀ p ∈ pings.map DateTime.ofSeconds, p.date.year ≤ 9999 := by
      intro p hp
      obtain ⟨second, hsecond, hp⟩ := List.mem_map.mp hp
      exact hp ▸ (hyears second hsecond).2
    obtain ⟨t, ht, hrow, hlatest⟩ :=
      selects_latest hbound (fun hnil => hempty (List.map_eq_nil_iff.mp hnil)) hselects
    obtain ⟨latest, hseen, hlast⟩ := List.mem_map.mp ht
    have hmost : ∀ second, Seen db j c incoming second → second ≤ latest := by
      intro second hsecond
      have hle := hlatest _ (List.mem_map_of_mem ((hmem second).mpr hsecond))
      rw [← hlast, DateTime.seconds_ofSeconds, DateTime.seconds_ofSeconds] at hle
      exact_mod_cast hle
    obtain ⟨hyear, hyear'⟩ := hyears latest hseen
    obtain ⟨answer, hlocal, hinstant, htime, hzone⟩ :=
      localTime_currentTimestamp (lt_of_lt_of_le (by decide) hyear) hyear'
    rw [DateTime.seconds_ofSeconds] at hinstant
    rw [← hlast] at hrow
    have hdate : dateOf b answer.str = some (1000 * (latest : ℤ)) := by
      rw [← hinstant]
      exact b.parse_iso _ _ (isoTime_str htime)
    refine ⟨strftime answer.time, String.ofList answer.str, ?_, ?_, ?_, .inr ⟨answer, rfl, rfl, hzone,
      latest, hinstant, (hmem latest).mp hseen, hmost⟩⟩
    · rw [hrow, indexText, hlocal, Option.map_some]
    · simp only [hrow, lastConnection, hlocal]
    · rw [String.toList_ofList, answered_connected]
      simp only [findsPing, isTime_str htime, hdate, isRecent, Bool.true_and, decide_eq_true_eq]
      constructor
      · exact fun hrecent => ⟨latest, (hmem latest).mp hseen, hrecent⟩
      · rintro ⟨second, hsecond, hrecent⟩
        have hle : (second : ℤ) ≤ latest := by exact_mod_cast hmost second hsecond
        omega

def oneContact : Incoming :=
  ⟨.fetch (some (bearer ['t'])) none, 5, ⟨0, 0, 0, .returned⟩, ⟨0, 0, 0, .returned⟩⟩

theorem contact_shown : ∃ shown text,
    indexText (some (currentTimestamp (DateTime.ofSeconds 5))) = some shown ∧
      lastConnection (some (currentTimestamp (DateTime.ofSeconds 5))) = ⟨200, .text text⟩ ∧
      (updateConnectionStatus strict (index "Never") (.answered text.toList 8000)).connected =
        true := by
  have hcontact : Contact oneToken cherumConfig oneContact := ⟨_, _, rfl, carries_oneToken⟩
  have hseen : ∀ second, Seen Database.empty oneToken cherumConfig [oneContact] second ↔ second = 5 := by
    intro second
    constructor
    · rintro (hrow | ⟨i, hi, -, hsecond⟩)
      · cases hrow
      · rw [List.mem_singleton.mp hi] at hsecond
        exact hsecond.symm
    · rintro rfl
      exact .inr ⟨oneContact, List.mem_singleton_self _, hcontact, rfl⟩
  have hpings : (serveAll PythonJson.noTexts (createApp Database.empty 0)
      ([oneContact].map (Incoming.arrival oneToken cherumConfig))).db.pings = [5] := by
    rw [serveAll_pings]
    simp [(ping?_arrival oneContact 5).mpr ⟨hcontact, rfl⟩, createApp, Database.empty]
  have hquery : Selects (createdAt (serveAll PythonJson.noTexts (createApp Database.empty 0)
      ([oneContact].map (Incoming.arrival oneToken cherumConfig))).db)
      (some (currentTimestamp (DateTime.ofSeconds 5))) := by
    unfold createdAt
    rw [hpings]
    exact ⟨List.mem_singleton_self _, fun row hrow => (List.mem_singleton.mp hrow).le⟩
  obtain ⟨-, shown, text, hshown, htext, hconnected, -⟩ :=
    link_shown PythonJson.noTexts oneToken cherumConfig Database.empty 0 [oneContact]
      (fun second h => by rw [(hseen second).mp h]; decide) hquery strict (index "Never") 8000
  exact ⟨shown, text, hshown, htext, hconnected.mpr ⟨5, (hseen 5).mpr rfl, by decide⟩⟩

end Cherum.DroneLink
