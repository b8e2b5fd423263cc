import Cherum.ConnectionStatus
import Cherum.FixedDecimal
import Cherum.TelemetryPage

/-! app.js: the object `DroneControl` with the elements it fills. Its two timers
and the clicks on the command buttons run in any order, each up to its next
await, and share `error` and the container that shows it. index.html has every
element the guards ask for. A click has the button or the icon in it as its
target; of the icon the classes are left out. -/

namespace Cherum.ControlPage
open ActionRuns ConnectionStatus FixedDecimal TelemetryPage

/-- `Number::toString`, the browser's own on most numbers. -/
structure Numbers where
  toString : ℚ → List Char

def roundHalfUp (x : ℚ) : ℕ := ⌊x + 1 / 2⌋₊

def toFixed (n : Numbers) (places : ℕ) : Option ℚ → List Char
  | none => "NaN".toList
  | some x =>
    if 10 ^ 21 ≤ |x| then n.toString x
    else (if x < 0 then ['-'] else []) ++ unitsText places (roundHalfUp (|x| * 10 ^ places))

structure Button where
  value : String
  primary : Bool
  secondary : Bool
  deriving DecidableEq, Repr

structure Elements where
  latitude : List Char
  longitude : List Char
  altitude : List Char
  battery : List Char
  batteryIcon : String
  batteryClass : String
  flightMode : String
  armedStatus : Bool
  airStatus : Bool
  commandButtons : List Button
  deriving DecidableEq, Repr

structure Click where
  button : ℕ
  onIcon : Bool
  deriving DecidableEq, Repr

structure DroneControl where
  /-- What `updateTelemetry` and the map use, and `this.error`. -/
  page : TelemetryPage.Page
  connected : Bool
  lastConnection : String
  loadingConnection : Bool
  status : String
  shown : String
  errorText : String
  errorDisplay : String
  elements : Elements
  /-- The clicks whose request has not been answered. -/
  awaiting : List Click
  /-- The commands that `sendCommand` has posted. -/
  posted : List String
  deriving DecidableEq

/-- The elements as index.html has them; it is rendered without a `last_command`. -/
def indexElements : Elements where
  latitude := "---.------°".toList
  longitude := "---.------°".toList
  altitude := "--- m".toList
  battery := "--%".toList
  batteryIcon := "🔋"
  batteryClass := "battery-icon"
  flightMode := "---"
  armedStatus := false
  airStatus := false
  commandButtons := [⟨"loiter", false, true⟩, ⟨"land", false, true⟩, ⟨"rtl", false, true⟩]

def start (shown : String) : DroneControl where
  page := TelemetryPage.initial
  connected := false
  lastConnection := "Never"
  loadingConnection := true
  status := "status-indicator status-disconnected"
  shown := shown
  errorText := ""
  errorDisplay := "none"
  elements := indexElements
  awaiting := []
  posted := []

/-- A mode that is a key of every object gives a value that no button has. -/
def flightModeToCommand : Option String → Option String
  | some "RETURN_TO_LAUNCH" => some "rtl"
  | some "HOLD" => some "loiter"
  | some "LAND" => some "land"
  | _ => none

def Button.highlight (b : Button) : Button := { b with primary := true, secondary := false }

def Button.plain (b : Button) : Button := { b with primary := false, secondary := true }

def coordinateText (n : Numbers) (coordinate : Position → Option ℚ) (t : Telemetry) : List Char :=
  match t.position with
  | some position => toFixed n 6 (coordinate position) ++ ['°']
  | none => "---.------°".toList

def altitudeText (n : Numbers) (t : Telemetry) : List Char :=
  match t.position with
  | some position => toFixed n 1 position.altitude ++ " m".toList
  | none => "--- m".toList

def percentage (t : Telemetry) : Option ℚ := t.battery.bind BatteryRow.percentage

def batteryText (n : Numbers) (t : Telemetry) : List Char :=
  match percentage t with
  | some value => n.toString value ++ ['%']
  | none => "--%".toList

def flightModeText (t : Telemetry) : String :=
  match t.flightMode with
  | some mode => if mode = "" then "---" else mode
  | none => "---"

def updateButton (t : Telemetry) (b : Button) : Button :=
  if flightModeToCommand t.flightMode = some b.value then b.highlight else b.plain

def updateTelemetryUI (n : Numbers) (t : Telemetry) (e : Elements) : Elements where
  latitude := coordinateText n Position.latitude t
  longitude := coordinateText n Position.longitude t
  altitude := altitudeText n t
  battery := batteryText n t
  batteryIcon := match percentage t with
    | some value => if 30 < value then "🔋" else "🪫"
    | none => e.batteryIcon
  batteryClass := match percentage t with
    | some value => "battery-icon " ++
      if 60 < value then "battery-good" else if 30 < value then "battery-medium" else "battery-low"
    | none => e.batteryClass
  flightMode := flightModeText t
  armedStatus := t.armed
  airStatus := t.inAir
  commandButtons := e.commandButtons.map (updateButton t)

def showError (message : String) (d : DroneControl) : DroneControl :=
  { d with page := TelemetryPage.showError message d.page, errorText := message,
           errorDisplay := "block" }

def clearError (d : DroneControl) : DroneControl :=
  { d with page := TelemetryPage.clearError d.page, errorDisplay := "none" }

/-- The part of the object that `updateConnectionStatus` uses. -/
def connectionPart (d : DroneControl) : ConnectionStatus.Page :=
  ⟨d.connected, d.lastConnection, d.status, d.shown, d.loadingConnection, d.page.error,
    d.errorText, d.errorDisplay⟩

def withConnection (d : DroneControl) (p : ConnectionStatus.Page) : DroneControl :=
  { d with
      page := { d.page with error := p.error }
      connected := p.connected
      lastConnection := p.lastConnection
      loadingConnection := p.loading
      status := p.status
      shown := p.shown
      errorText := p.errorText
      errorDisplay := p.errorDisplay }

/-- The browser with its map, which throws for some coordinates. -/
structure Surroundings where
  browser : Browser
  numbers : Numbers
  refuses : LatLng → Bool

def updateConnectionStatus (w : Surroundings) (d : DroneControl) (o : Outcome) : DroneControl :=
  withConnection d (ConnectionStatus.updateConnectionStatus w.browser (connectionPart d) o)

def updateTelemetry (w : Surroundings) (d : DroneControl) : Option Answer → DroneControl
  | none => showError "Error al obtener telemetría" d
  | some data =>
    let telemetry := updateData data d.page.telemetry
    let elements := updateTelemetryUI w.numbers telemetry d.elements
    let result := updateMapPosition w.refuses { d.page with telemetry := telemetry }
    if result.2 then
      showError "Error al obtener telemetría" { d with page := result.1, elements := elements }
    else clearError { d with page := { result.1 with loading := false }, elements := elements }

/-- `e.target.value` as the form carries it; an icon has no value. -/
def targetValue (b : Button) (click : Click) : String :=
  if click.onIcon then "undefined" else b.value

/-- The class changes of a click whose request was answered. -/
def highlightTarget (click : Click) (buttons : List Button) : List Button :=
  if click.onIcon then buttons else buttons.modify click.button Button.highlight

inductive Action
  | connection (outcome : Outcome)
  | telemetry (answer : Option Answer)
  /-- The listener of a button up to its await. -/
  | click (click : Click)
  /-- The rest of the listener, for one of the clicks that wait. -/
  | answered (click : Click)
  | refused (click : Click)

def step (w : Surroundings) (d : DroneControl) : Action → Option DroneControl
  | .connection outcome => some (updateConnectionStatus w d outcome)
  | .telemetry answer => some (updateTelemetry w d answer)
  | .click click =>
    (d.elements.commandButtons[click.button]?).map fun b =>
      { d with awaiting := d.awaiting ++ [click], posted := d.posted ++ [targetValue b click] }
  | .answered click =>
    if click ∈ d.awaiting then
      some { d with
        awaiting := d.awaiting.erase click
        elements := { d.elements with
          commandButtons := highlightTarget click d.elements.commandButtons } }
    else none
  | .refused click =>
    if click ∈ d.awaiting then some { d with awaiting := d.awaiting.erase click } else none

end Cherum.ControlPage
