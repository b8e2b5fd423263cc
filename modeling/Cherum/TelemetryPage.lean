import Mathlib

/-! app.js: `updateTelemetry` and `updateMapPosition`. What follows the awaits of
an update runs to its end in one go. Numbers are exact and NaN is `none`. The
map throws for some coordinates before it changes anything; for which is a
parameter. The elements that `updateTelemetryUI` fills and the view of the map
are left out: no other function reads them. -/

namespace Cherum.TelemetryPage

/-- `data.position`; the page does not read the time. -/
structure PositionRow where
  time : ℤ
  latitude : Option ℚ
  longitude : Option ℚ
  altitude : Option ℚ
  deriving DecidableEq

structure BatteryRow where
  percentage : Option ℚ
  id : Option ℤ
  deriving DecidableEq

/-- The JSON object of `/last/telemetry`, `none` where it has null. -/
structure Answer where
  position : Option PositionRow
  battery : Option BatteryRow
  flightMode : Option String
  armed : Option Bool
  inAir : Option Bool
  deriving DecidableEq

structure Position where
  latitude : Option ℚ
  longitude : Option ℚ
  altitude : Option ℚ
  deriving DecidableEq

/-- `parseFloat` of a number or, giving NaN, of null. -/
def parseFloat (value : Option ℚ) : Option ℚ := value

structure Telemetry where
  /-- `none` is the object of nulls of the constructor. -/
  position : Option Position
  battery : Option BatteryRow
  flightMode : Option String
  armed : Bool
  inAir : Bool
  deriving DecidableEq

abbrev LatLng := Option ℚ × Option ℚ

structure Page where
  telemetry : Telemetry
  marker : LatLng
  markerOnMap : Bool
  markerArmed : Bool
  trajectoryPoints : List LatLng
  /-- The points of the polyline on the map. -/
  trajectory : List LatLng
  loading : Bool
  error : Option String
  deriving DecidableEq

def initial : Page where
  telemetry := ⟨none, none, none, false, false⟩
  marker := (some 0, some 0)
  markerOnMap := false
  markerArmed := false
  trajectoryPoints := []
  trajectory := []
  loading := true
  error := none

def maxTrajectoryPoints : ℕ := 1000

def PositionRow.position (row : PositionRow) : Position :=
  ⟨parseFloat row.latitude, parseFloat row.longitude, parseFloat row.altitude⟩

def Position.latLng (position : Position) : LatLng := (position.latitude, position.longitude)

def updateData (data : Answer) (t : Telemetry) : Telemetry where
  position := (data.position.map PositionRow.position).or t.position
  battery := data.battery.or t.battery
  flightMode := data.flightMode.or t.flightMode
  armed := data.armed.getD t.armed
  inAir := data.inAir.getD t.inAir

def pushPoint (point : LatLng) (points : List LatLng) : List LatLng :=
  if maxTrajectoryPoints < (points ++ [point]).length then (points ++ [point]).tail
  else points ++ [point]

section Map

variable (refuses : LatLng → Bool)

/-- `updateMapPosition`, and whether it throws. -/
def updateMapPosition (p : Page) : Page × Bool :=
  match p.telemetry.position with
  | none => (p, false)
  | some position =>
    let p := if p.marker = (some 0, some 0) then { p with markerOnMap := true } else p
    if refuses position.latLng then (p, true)
    else
      let points := pushPoint position.latLng p.trajectoryPoints
      ({ p with
          marker := position.latLng
          markerArmed := if p.markerOnMap then p.telemetry.armed else p.markerArmed
          trajectoryPoints := points
          trajectory := points }, false)

def showError (message : String) (p : Page) : Page := { p with error := some message }

def clearError (p : Page) : Page := { p with error := none }

def updateTelemetry (p : Page) : Option Answer → Page
  | none => showError "Error al obtener telemetría" p
  | some data =>
    let result := updateMapPosition refuses { p with telemetry := updateData data p.telemetry }
    if result.2 then showError "Error al obtener telemetría" result.1
    else clearError { result.1 with loading := false }

end Map

section Draw

variable {refuses : LatLng → Bool} {p : Page} {data : Answer}

theorem updateMapPosition_telemetry (refuses : LatLng → Bool) (p : Page) :
    (updateMapPosition refuses p).1.telemetry = p.telemetry := by
  unfold updateMapPosition
  split
  · rfl
  · split_ifs <;> rfl

theorem updateTelemetry_telemetry (refuses : LatLng → Bool) (p : Page) (data : Answer) :
    (updateTelemetry refuses p (some data)).telemetry = updateData data p.telemetry := by
  have hmap := updateMapPosition_telemetry refuses { p with telemetry := updateData data p.telemetry }
  unfold updateTelemetry
  simp only
  split_ifs <;> exact hmap

theorem updateTelemetry_drawn {position : Position}
    (h : (updateData data p.telemetry).position = some position)
    (htaken : refuses position.latLng = false) :
    (updateTelemetry refuses p (some data)).marker = position.latLng ∧
      (updateTelemetry refuses p (some data)).trajectoryPoints =
        pushPoint position.latLng p.trajectoryPoints := by
  by_cases hfirst : p.marker = (some 0, some 0) <;>
    simp [updateTelemetry, updateMapPosition, h, htaken, hfirst, clearError]

theorem updateTelemetry_undrawn
    (h : ∀ position ∈ (updateData data p.telemetry).position, refuses position.latLng = true) :
    (updateTelemetry refuses p (some data)).marker = p.marker ∧
      (updateTelemetry refuses p (some data)).trajectoryPoints = p.trajectoryPoints := by
  cases hposition : (updateData data p.telemetry).position with
  | none => simp [updateTelemetry, updateMapPosition, hposition, clearError]
  | some position =>
    have hrefused := h position hposition
    by_cases hfirst : p.marker = (some 0, some 0) <;>
      simp [updateTelemetry, updateMapPosition, hposition, hrefused, hfirst, showError]

end Draw

def lastN {α : Type*} (n : ℕ) (l : List α) : List α := l.drop (l.length - n)

theorem map_lastN {α β : Type*} (f : α → β) (n : ℕ) (l : List α) :
    (lastN n l).map f = lastN n (l.map f) := by
  rw [lastN, lastN, List.map_drop, List.length_map]

theorem lastN_sublist {α : Type*} (n : ℕ) (l : List α) : (lastN n l).Sublist l :=
  List.drop_sublist _ _

theorem lastN_snoc {α : Type*} (n : ℕ) (l : List α) (x : α) :
    lastN n (l ++ [x]) =
      if n < (lastN n l ++ [x]).length then (lastN n l ++ [x]).tail else lastN n l ++ [x] := by
  have hwindow : lastN n l ++ [x] = (l ++ [x]).drop (l.length - n) := by
    rw [lastN, List.drop_append_of_le_length (Nat.sub_le _ _)]
  have hlength : (lastN n l ++ [x]).length = l.length - (l.length - n) + 1 := by
    rw [lastN, List.length_append, List.length_drop, List.length_singleton]
  rw [hlength, hwindow, List.tail_drop, lastN, List.length_append, List.length_singleton]
  split_ifs with hfull
  · congr 1
    omega
  · congr 1
    omega

theorem pushPoint_lastN (point : LatLng) (points : List LatLng) :
    pushPoint point (lastN maxTrajectoryPoints points) =
      lastN maxTrajectoryPoints (points ++ [point]) :=
  (lastN_snoc maxTrajectoryPoints points point).symm

end Cherum.TelemetryPage
