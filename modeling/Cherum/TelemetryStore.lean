import Cherum.PythonJson

/-! telemetry_store.py: points are buffered, and the buffer is handed to the
write API when it is full or old. A call reads the clock up to three times, and
the write it may make returns or raises; both are part of the call here. Times
are in microseconds. -/

namespace Cherum.TelemetryStore
open PythonJson

/-- An influxdb_client point; without a time the database sets it. -/
structure Point where
  measurement : String
  tags : List (String × Json)
  fields : List (String × Json)
  time : Option ℤ

inductive WriteResult
  | returned
  | raised
  deriving DecidableEq, Repr

structure Store where
  buffer : List Point
  lastFlush : ℤ
  clientClosed : Bool
  /-- The batches `write_api.write` took, each by a call that returned. -/
  written : List (List Point)

/-- The clock readings of one call, in order, and the result of its write. -/
structure Call where
  stamp : ℤ
  checked : ℤ
  flushed : ℤ
  result : WriteResult
  deriving DecidableEq, Repr

def new (now : ℤ) : Store := ⟨[], now, false, []⟩

def bufferSize : ℕ := 100

def flushInterval : ℤ := 5

/-- `timedelta.seconds`: the seconds within the last day of the difference. -/
def seconds (delta : ℤ) : ℤ := delta / 1000000 % 86400

def flush (call : Call) (s : Store) : Store :=
  if s.buffer.isEmpty then s
  else
    match call.result with
    | .returned =>
      { s with buffer := [], lastFlush := call.flushed, written := s.written ++ [s.buffer] }
    | .raised => s

def checkFlush (call : Call) (s : Store) : Store :=
  if bufferSize ≤ s.buffer.length ∨ flushInterval ≤ seconds (call.checked - s.lastFlush) then
    flush call s
  else s

/-- The common end of the `store_*` methods. -/
def append (point : Point) (call : Call) (s : Store) : Store :=
  checkFlush call { s with buffer := s.buffer ++ [point] }

def armedPoint (armed droneId : Json) : Point :=
  ⟨"armed", [("drone_id", droneId)], [("armed", armed)], none⟩

def inAirPoint (inAir droneId : Json) : Point :=
  ⟨"in_air", [("drone_id", droneId)], [("in_air", inAir)], none⟩

def positionPoint (lat lon alt : PyFloat) (droneId : Json) (now : ℤ) : Point :=
  ⟨"position", [("drone_id", droneId)],
    [("latitude", .float lat), ("longitude", .float lon), ("altitude", .float alt)], some now⟩

def batteryPoint (texts : Texts) (batteryId percent droneId : Json) (now : ℤ) : Point :=
  ⟨"battery", [("drone_id", droneId), ("battery_id", .str (pyStr texts batteryId))],
    [("remaining_percent", percent)], some now⟩

def flightModePoint (mode droneId : Json) (now : ℤ) : Point :=
  ⟨"flight_mode", [("drone_id", droneId)], [("mode", mode)], some now⟩

def storeArmed (armed droneId : Json) (call : Call) : Store → Store :=
  append (armedPoint armed droneId) call

def storeInAir (inAir droneId : Json) (call : Call) : Store → Store :=
  append (inAirPoint inAir droneId) call

def storePosition (lat lon alt : PyFloat) (droneId : Json) (call : Call) : Store → Store :=
  append (positionPoint lat lon alt droneId call.stamp) call

def storeBattery (texts : Texts) (batteryId percent droneId : Json) (call : Call) :
    Store → Store :=
  append (batteryPoint texts batteryId percent droneId call.stamp) call

def storeFlightMode (mode droneId : Json) (call : Call) : Store → Store :=
  append (flightModePoint mode droneId call.stamp) call

def close (call : Call) (s : Store) : Store :=
  { flush call s with clientClosed := true }

/-- All points stored so far that the store has not lost: what the write API
took, then what is still buffered. -/
def Store.points (s : Store) : List Point := s.written.flatten ++ s.buffer

theorem flush_cases (call : Call) (s : Store) :
    flush call s = s ∨ s.buffer ≠ [] ∧ flush call s =
      { s with buffer := [], lastFlush := call.flushed, written := s.written ++ [s.buffer] } := by
  unfold flush
  split
  · exact .inl rfl
  · next hbuffer =>
    cases call.result with
    | returned => exact .inr ⟨fun h => hbuffer (List.isEmpty_iff.mpr h), rfl⟩
    | raised => exact .inl rfl

theorem append_cases (point : Point) (call : Call) (s : Store) :
    append point call s = { s with buffer := s.buffer ++ [point] } ∨
    append point call s =
      { s with buffer := [], lastFlush := call.flushed,
               written := s.written ++ [s.buffer ++ [point]] } := by
  unfold append checkFlush
  split
  · cases flush_cases call { s with buffer := s.buffer ++ [point] } with
    | inl h => exact .inl h
    | inr h => exact .inr h.2
  · exact .inl rfl

@[simp] theorem flush_points (call : Call) (s : Store) : (flush call s).points = s.points := by
  cases flush_cases call s with
  | inl h => rw [h]
  | inr h => simp [h.2, Store.points]

@[simp] theorem append_points (point : Point) (call : Call) (s : Store) :
    (append point call s).points = s.points ++ [point] := by
  cases append_cases point call s with
  | inl h => simp [h, Store.points]
  | inr h => simp [h, Store.points]

@[simp] theorem close_points (call : Call) (s : Store) : (close call s).points = s.points :=
  flush_points call s

end Cherum.TelemetryStore
