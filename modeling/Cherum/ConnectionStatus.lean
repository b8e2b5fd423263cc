import Cherum.ActionRuns
import Cherum.DateTimeText

/-! app.js: `updateConnectionStatus` and what it writes to the page. Only its
two awaits can throw, and they come before its first assignment, so completed
runs follow one another as whole steps. index.html has every element that the
guards of `updateConnectionUI` and `showError` ask for. Instants are in
milliseconds, `none` is an invalid date. -/

namespace Cherum.ConnectionStatus
open ActionRuns CivilCalendar DateTimeText

def dayFromYear (year : ℤ) : ℤ :=
  365 * (year - 1970) + (year - 1969) / 4 - (year - 1901) / 100 + (year - 1601) / 400

/-- ECMAScript's time value of the fields, as UTC. -/
def timeValue (t : DateTime) : ℤ :=
  (dayFromYear t.date.year + daysBeforeMonth t.date.year t.date.month + (t.date.day - 1)) * 86400000 +
    (t.hour * 3600000 + t.minute * 60000 + t.second * 1000)

/-- The date time strings of ECMAScript that have seconds and an offset. -/
def isoTime (text : List Char) : Option ℤ := do
  let (t, rest) ← readDateTime 'T' text
  let offset ← readOffset rest
  return timeValue t - offset * 60000

/-- `new Date(text)`, which is the browser's own on other texts, and the locale. -/
structure Browser where
  parse : List Char → Option ℤ
  parse_iso : ∀ text time, isoTime text = some time → parse text = some time
  toLocaleDateString : Option ℤ → String

def replaceFirst (old new : Char) : List Char → List Char
  | [] => []
  | c :: rest => if c = old then new :: rest else c :: replaceFirst old new rest

structure Page where
  connected : Bool
  lastConnection : String
  /-- `className` of the element `status`. -/
  status : String
  /-- `textContent` of the element `last-connection`. -/
  shown : String
  loading : Bool
  error : Option String
  errorText : String
  errorDisplay : String
  deriving DecidableEq, Repr

def className (connected : Bool) : String :=
  "status-indicator " ++ if connected then "status-connected" else "status-disconnected"

def index (shown : String) : Page :=
  ⟨false, "Never", "status-indicator status-disconnected", shown, true, none, "", "none"⟩

def updateConnectionUI (p : Page) : Page :=
  { p with status := className p.connected, shown := p.lastConnection }

def showError (message : String) (p : Page) : Page :=
  { p with error := some message, errorText := message, errorDisplay := "block" }

/-- How the awaits of one run end: with the text of an answer, and the time when
it is there, or with an exception. -/
inductive Outcome
  | answered (text : List Char) (now : ℤ)
  | raised

/-- `(now - date) < 10000`; a comparison with an invalid date is false. -/
def isRecent (now : ℤ) : Option ℤ → Bool
  | some date => now - date < 10000
  | none => false

def isTime (text : List Char) : Bool := text ≠ [] ∧ text ≠ "Never".toList

variable (b : Browser)

def dateOf (text : List Char) : Option ℤ := b.parse (replaceFirst ' ' 'T' text)

def updateConnectionStatus (p : Page) : Outcome → Page
  | .answered text now =>
    let p :=
      if isTime text then
        { p with
          connected := isRecent now (dateOf b text)
          lastConnection := b.toLocaleDateString (dateOf b text) }
      else { p with connected := false, lastConnection := "Never" }
    { updateConnectionUI p with loading := false }
  | .raised => showError "Error al obtener el estado de conexión" { p with connected := false }

def classList (className : String) : List (List Char) := className.toList.splitOn ' '

/-- What the page shows is what the program holds. -/
structure Agrees (p : Page) : Prop where
  indicator : "status-connected".toList ∈ classList p.status ↔ p.connected = true
  text : p.shown = p.lastConnection

def findsPing : Outcome → Bool
  | .answered text now => isTime text && isRecent now (dateOf b text)
  | .raised => false

theorem status_connected_iff (connected : Bool) :
    "status-connected".toList ∈ classList (className connected) ↔ connected = true := by
  cases connected <;> decide

variable {b}

theorem answered_connected (p : Page) (text : List Char) (now : ℤ) :
    (updateConnectionStatus b p (.answered text now)).connected =
      findsPing b (.answered text now) := by
  by_cases h : isTime text = true <;>
    simp [updateConnectionStatus, updateConnectionUI, findsPing, h]

theorem answered_agrees (p : Page) (text : List Char) (now : ℤ) :
    Agrees (updateConnectionStatus b p (.answered text now)) :=
  ⟨status_connected_iff _, rfl⟩

theorem raised_agrees {p : Page} (hstatus : p.status = className p.connected) :
    Agrees (updateConnectionStatus b p .raised) ↔
      p.connected = false ∧ p.shown = p.lastConnection := by
  have hindicator : (updateConnectionStatus b p .raised).status = className p.connected := hstatus
  constructor
  · intro h
    refine ⟨?_, h.text⟩
    have hclass := h.indicator
    rw [hindicator, status_connected_iff] at hclass
    exact Bool.eq_false_iff.mpr fun hconnected => Bool.false_ne_true (hclass.mp hconnected)
  · intro h
    refine ⟨?_, h.2⟩
    rw [hindicator, status_connected_iff, h.1]
    rfl

/-- A run that throws does not follow one that found a recent ping. -/
def NotAfterPing (b : Browser) (o next : Outcome) : Prop := next = .raised → findsPing b o = false

theorem agrees_throughout_iff {p : Page} (hstatus : p.status = className p.connected)
    (outcomes : List Outcome) :
    Throughout (updateConnectionStatus b) (fun p o => Agrees (updateConnectionStatus b p o)) p
      outcomes ↔
    (∀ o ∈ outcomes.head?, o = .raised → p.connected = false ∧ p.shown = p.lastConnection) ∧
      outcomes.IsChain (NotAfterPing b) := by
  induction outcomes generalizing p with
  | nil => simp [throughout_nil]
  | cons o rest ih =>
    rw [throughout_cons, List.isChain_cons]
    simp only [List.head?_cons, Option.mem_some_iff, forall_eq']
    cases o with
    | answered text now =>
      have hagrees : Agrees (updateConnectionStatus b p (.answered text now)) :=
        answered_agrees p text now
      have hfinds := answered_connected (b := b) p text now
      rw [ih rfl, hfinds]
      simp only [hagrees, hagrees.text, NotAfterPing, true_and, and_true, reduceCtorEq,
        false_imp_iff]
    | raised =>
      rw [raised_agrees hstatus]
      simp only [forall_const]
      refine and_congr_right fun hp => ?_
      have hstatus' : (updateConnectionStatus b p .raised).status =
          className (updateConnectionStatus b p .raised).connected := by
        rw [hp.1] at hstatus
        exact hstatus
      have hagrees : Agrees (updateConnectionStatus b p .raised) :=
        (raised_agrees hstatus).mpr hp
      have hconnected : (updateConnectionStatus b p .raised).connected = false := rfl
      rw [ih hstatus', hconnected]
      simp only [hagrees.text, NotAfterPing, findsPing, and_true]

/-- After every run the page shows what the program holds exactly when no run
throws right after one that found a recent ping, nor first on a page that came
with the time of a ping. -/
theorem indicator_agrees_iff (b : Browser) (shown : String) (outcomes : List Outcome) :
    Throughout (updateConnectionStatus b) (fun p o => Agrees (updateConnectionStatus b p o))
      (index shown) outcomes ↔
    (outcomes.head? = some .raised → shown = "Never") ∧ outcomes.IsChain (NotAfterPing b) := by
  have hfirst : (∀ o ∈ outcomes.head?, o = .raised →
      (index shown).connected = false ∧ (index shown).shown = (index shown).lastConnection) ↔
      (outcomes.head? = some .raised → shown = "Never") := by
    constructor
    · intro h hraised
      exact (h .raised hraised rfl).2
    · intro h o ho hraised
      rw [hraised] at ho
      exact ⟨rfl, h ho⟩
  rw [agrees_throughout_iff rfl, hfirst]

def strict : Browser := ⟨isoTime, fun _ _ h => h, fun _ => "1 de enero de 2024, 00:00:00"⟩

/-- A ping one second ago, and then a request that fails: the program holds that
the link is dead, the indicator says that it is alive. -/
theorem dead_link_shown_alive :
    (∃ p, p = [.answered "2024-01-01 00:00:00-06:00".toList 1704088801000, .raised].foldl
        (updateConnectionStatus strict) (index "Never") ∧
      p.connected = false ∧ p.status = "status-indicator status-connected") ∧
    ¬ ∀ b shown outcomes, Throughout (updateConnectionStatus b)
      (fun p o => Agrees (updateConnectionStatus b p o)) (index shown) outcomes := by
  have hping : findsPing strict
      (.answered "2024-01-01 00:00:00-06:00".toList 1704088801000) = true := by decide
  refine ⟨⟨_, rfl, rfl, ?_⟩, fun h => ?_⟩
  · exact congrArg className ((answered_connected (index "Never") _ _).trans hping)
  · have hchain := ((agrees_throughout_iff rfl _).mp (h strict "Never"
      [.answered "2024-01-01 00:00:00-06:00".toList 1704088801000, .raised])).2
    have hnot := (List.isChain_cons_cons.mp hchain).1 rfl
    rw [hping] at hnot
    cases hnot

end Cherum.ConnectionStatus
