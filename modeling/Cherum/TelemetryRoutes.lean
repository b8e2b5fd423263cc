import Cherum.HttpMessages
import Cherum.PythonFloat
import Cherum.TelemetryStore

/-! The routes `/telemetry` and `/last/telemetry`. What the database answers to
a query is an argument of the handlers; a closed client cannot create the query
API that `query_recent_positions` asks for. -/

namespace Cherum.TelemetryRoutes
open HttpMessages PythonFloat PythonJson TelemetryStore

inductive RequestBody
  | notDeclaredJson
  | malformed
  | json (value : Json)

structure FluxRecord where
  time : Json
  value : Json
  values : List (String × Json)

abbrev QueryResult := Except PyError (List (List FluxRecord))

/-- `record.values.get(key)`. -/
def FluxRecord.get (key : String) (record : FluxRecord) : Json :=
  (record.values.lookup key).getD .null

def positionBody (record : FluxRecord) : Json :=
  .obj [("time", record.time), ("latitude", record.get "latitude"),
    ("longitude", record.get "longitude"), ("altitude", record.get "altitude")]

def valueBody (key : String) (record : FluxRecord) : Json :=
  .obj [("time", record.time), (key, record.value)]

def queryRecentPositions (result : QueryResult) (s : Store) : Except PyError (List Json) :=
  if s.clientClosed then .error .runtimeError
  else result.map fun tables => tables.flatten.map positionBody

def lastRecord (body : FluxRecord → Json) (result : QueryResult) : Except PyError Json :=
  result.map fun tables => ((tables.flatten.head?).map body).getD .null

def lastPosition : QueryResult → Except PyError Json := lastRecord positionBody
def lastBattery : QueryResult → Except PyError Json := lastRecord (valueBody "percentage")
def lastFlightMode : QueryResult → Except PyError Json := lastRecord (valueBody "mode")
def lastArmed : QueryResult → Except PyError Json := lastRecord (valueBody "armed")
def lastInAir : QueryResult → Except PyError Json := lastRecord (valueBody "in_air")

structure LastResults where
  position : QueryResult
  battery : QueryResult
  flightMode : QueryResult
  armed : QueryResult
  inAir : QueryResult

/-- `GET /last/telemetry`; an exception of a query leaves the handler. -/
def lastTelemetry (results : LastResults) : Response :=
  let gathered : Except PyError Json := do
    let position ← lastPosition results.position
    let battery ← lastBattery results.battery
    let flightMode ← lastFlightMode results.flightMode
    let armed ← lastArmed results.armed
    let inAir ← lastInAir results.inAir
    return .obj [("position", position), ("battery", battery), ("flight_mode", flightMode),
      ("armed", armed), ("in_air", inAir)]
  match gathered with
  | .ok body => ⟨200, .json body⟩
  | .error _ => internalServerError

def failedToQuery : Response := ⟨500, .json (.obj [("error", .str "Failed to query telemetry")])⟩

def failedToStore : Response := ⟨500, .json (.obj [("error", .str "Failed to store telemetry")])⟩

def invalidData : Response := ⟨400, .json (.obj [("error", .str "Invalid telemetry data")])⟩

def received : Response := ⟨200, .json (.obj [("status", .str "received")])⟩

def getTelemetry (result : QueryResult) (s : Store) : Response :=
  match queryRecentPositions result s with
  | .ok positions => ⟨200, .json (.arr positions)⟩
  | .error _ => failedToQuery

/-- The store method the body of a post selects, with its arguments; the code
inside the `try` of `POST /telemetry` up to the call of that method. -/
def dispatch (texts : Texts) (data : Json) : Except PyError (Option (Call → Store → Store)) := do
  let droneId ← data.get "drone_id" (.str "default")
  let type ← data.getItem "type"
  if type.isStr "position" then
    let posData ← data.getItem "data"
    let lat ← pyFloat texts (← posData.getItem "latitude_deg")
    let lon ← pyFloat texts (← posData.getItem "longitude_deg")
    let alt ← pyFloat texts (← posData.getItem "relative_altitude_m")
    return some (storePosition lat lon alt droneId)
  else if type.isStr "battery" then
    let batData ← data.getItem "data"
    let batteryId ← batData.getItem "id"
    let percent ← batData.getItem "remaining_percent"
    return some (storeBattery texts batteryId percent droneId)
  else if type.isStr "flight_mode" then
    let modeData ← data.getItem "data"
    let mode ← modeData.getItem "mode"
    return some (storeFlightMode mode droneId)
  else if type.isStr "armed" then
    let armed ← data.getItem "armed"
    return some (storeArmed armed droneId)
  else if type.isStr "in_air" then
    let inAir ← data.getItem "in_air"
    return some (storeInAir inAir droneId)
  else
    return none

/-- `if not data or 'type' not in data`, outside the `try`. -/
def lacksType (data : Json) : Except PyError Bool :=
  if data.truthy then (data.contains "type").map not else .ok true

/-- What the post makes the store do: nothing, or one call of a `store_*` method. -/
def storeCall (texts : Texts) (authorised : Bool) : RequestBody → Option (Call → Store → Store)
  | .json data =>
    match authorised, lacksType data, dispatch texts data with
    | true, .ok false, .ok method => method
    | _, _, _ => none
  | _ => none

def postTelemetry (texts : Texts) (authorised : Bool) (body : RequestBody) (call : Call)
    (s : Store) : Response × Store :=
  if authorised then
    match body with
    | .notDeclaredJson => (unsupportedMediaType, s)
    | .malformed => (badRequest, s)
    | .json data =>
      match lacksType data with
      | .error _ => (internalServerError, s)
      | .ok true => (invalidData, s)
      | .ok false =>
        match dispatch texts data with
        | .error _ => (failedToStore, s)
        | .ok none => (received, s)
        | .ok (some method) => (received, method call s)
  else (unauthorized, s)

theorem postTelemetry_store (texts : Texts) (authorised : Bool) (body : RequestBody) (call : Call)
    (s : Store) : (postTelemetry texts authorised body call s).2 =
      match storeCall texts authorised body with
      | some method => method call s
      | none => s := by
  cases authorised with
  | false => cases body <;> rfl
  | true =>
    cases body with
    | notDeclaredJson => rfl
    | malformed => rfl
    | json data =>
      simp only [postTelemetry, storeCall, if_true]
      cases lacksType data with
      | error e => rfl
      | ok lacks =>
        cases lacks with
        | true => rfl
        | false =>
          cases dispatch texts data with
          | error e => rfl
          | ok method => cases method <;> rfl

/-- `value[key]` where it does not raise. -/
def field? (key : String) : Json → Option Json
  | .obj fields => fields.lookup key
  | _ => none

theorem getItem_eq_ok {key : String} {value item : Json} :
    value.getItem key = .ok item ↔ field? key value = some item := by
  cases value with
  | obj fields =>
    simp only [Json.getItem, field?]
    cases fields.lookup key <;> simp
  | _ => simp [Json.getItem, field?]

theorem isStr_eq_true {text : String} {value : Json} :
    value.isStr text = true ↔ value = .str text := by
  cases value <;> simp [Json.isStr]

/-- The drone a body names, or the default. -/
def namedDrone (body : Json) : Json := (field? "drone_id" body).getD (.str "default")

theorem get_drone {body droneId : Json}
    (h : body.get "drone_id" (.str "default") = .ok droneId) : droneId = namedDrone body := by
  cases body with
  | obj fields => exact (Except.ok.inj h).symm
  | _ => cases h

/-- The point that the values of a body make, at a clock reading. -/
inductive Describes (texts : Texts) (body : Json) (stamp : ℤ) : Point → Prop
  | position (data latitude longitude altitude : Json) (lat lon alt : PyFloat)
      (type : field? "type" body = some (.str "position"))
      (hasData : field? "data" body = some data)
      (hasLatitude : field? "latitude_deg" data = some latitude)
      (hasLongitude : field? "longitude_deg" data = some longitude)
      (hasAltitude : field? "relative_altitude_m" data = some altitude)
      (latValue : pyFloat texts latitude = .ok lat) (lonValue : pyFloat texts longitude = .ok lon)
      (altValue : pyFloat texts altitude = .ok alt) :
      Describes texts body stamp
        { measurement := "position", tags := [("drone_id", namedDrone body)],
          fields := [("latitude", .float lat), ("longitude", .float lon), ("altitude", .float alt)],
          time := some stamp }
  | battery (data batteryId percent : Json)
      (type : field? "type" body = some (.str "battery"))
      (hasData : field? "data" body = some data)
      (hasId : field? "id" data = some batteryId)
      (hasPercent : field? "remaining_percent" data = some percent) :
      Describes texts body stamp
        { measurement := "battery",
          tags := [("drone_id", namedDrone body), ("battery_id", .str (pyStr texts batteryId))],
          fields := [("remaining_percent", percent)], time := some stamp }
  | flightMode (data mode : Json)
      (type : field? "type" body = some (.str "flight_mode"))
      (hasData : field? "data" body = some data)
      (hasMode : field? "mode" data = some mode) :
      Describes texts body stamp
        { measurement := "flight_mode", tags := [("drone_id", namedDrone body)],
          fields := [("mode", mode)], time := some stamp }
  | armed (armed : Json)
      (type : field? "type" body = some (.str "armed"))
      (hasArmed : field? "armed" body = some armed) :
      Describes texts body stamp
        { measurement := "armed", tags := [("drone_id", namedDrone body)],
          fields := [("armed", armed)], time := none }
  | inAir (inAir : Json)
      (type : field? "type" body = some (.str "in_air"))
      (hasInAir : field? "in_air" body = some inAir) :
      Describes texts body stamp
        { measurement := "in_air", tags := [("drone_id", namedDrone body)],
          fields := [("in_air", inAir)], time := none }

theorem dispatch_describes {texts : Texts} {data : Json} {method : Call → Store → Store}
    (h : dispatch texts data = .ok (some method)) :
    ∃ point : ℤ → Point, (∀ stamp, Describes texts data stamp (point stamp)) ∧
      method = fun call => append (point call.stamp) call := by
  obtain ⟨droneId, hdrone, h⟩ := bind_eq_ok.mp h
  obtain ⟨type, htype, h⟩ := bind_eq_ok.mp h
  rw [getItem_eq_ok] at htype
  rw [get_drone hdrone] at h
  split at h
  · next hstr =>
    obtain ⟨posData, hdata, h⟩ := bind_eq_ok.mp h
    obtain ⟨_, hlatitude, h⟩ := bind_eq_ok.mp h
    obtain ⟨lat, hlat, h⟩ := bind_eq_ok.mp h
    obtain ⟨_, hlongitude, h⟩ := bind_eq_ok.mp h
    obtain ⟨lon, hlon, h⟩ := bind_eq_ok.mp h
    obtain ⟨_, haltitude, h⟩ := bind_eq_ok.mp h
    obtain ⟨alt, halt, h⟩ := bind_eq_ok.mp h
    rw [isStr_eq_true.mp hstr] at htype
    rw [getItem_eq_ok] at hdata hlatitude hlongitude haltitude
    cases h
    exact ⟨positionPoint lat lon alt (namedDrone data),
      fun stamp => .position posData _ _ _ lat lon alt htype hdata hlatitude hlongitude haltitude hlat hlon halt, rfl⟩
  · split at h
    · next hstr =>
      obtain ⟨batData, hdata, h⟩ := bind_eq_ok.mp h
      obtain ⟨batteryId, hid, h⟩ := bind_eq_ok.mp h
      obtain ⟨percent, hpercent, h⟩ := bind_eq_ok.mp h
      rw [isStr_eq_true.mp hstr] at htype
      rw [getItem_eq_ok] at hdata hid hpercent
      cases h
      exact ⟨batteryPoint texts batteryId percent (namedDrone data),
        fun stamp => .battery batData batteryId percent htype hdata hid hpercent, rfl⟩
    · split at h
      · next hstr =>
        obtain ⟨modeData, hdata, h⟩ := bind_eq_ok.mp h
        obtain ⟨mode, hmode, h⟩ := bind_eq_ok.mp h
        rw [isStr_eq_true.mp hstr] at htype
        rw [getItem_eq_ok] at hdata hmode
        cases h
        exact ⟨flightModePoint mode (namedDrone data),
          fun stamp => .flightMode modeData mode htype hdata hmode, rfl⟩
      · split at h
        · next hstr =>
          obtain ⟨armed, harmed, h⟩ := bind_eq_ok.mp h
          rw [isStr_eq_true.mp hstr] at htype
          rw [getItem_eq_ok] at harmed
          cases h
          exact ⟨fun _ => armedPoint armed (namedDrone data),
            fun stamp => .armed armed htype harmed, rfl⟩
        · split at h
          · next hstr =>
            obtain ⟨inAir, hinAir, h⟩ := bind_eq_ok.mp h
            rw [isStr_eq_true.mp hstr] at htype
            rw [getItem_eq_ok] at hinAir
            cases h
            exact ⟨fun _ => inAirPoint inAir (namedDrone data),
              fun stamp => .inAir inAir htype hinAir, rfl⟩
          · cases h

theorem dispatch_append {texts : Texts} {data : Json} {method : Call → Store → Store}
    (h : dispatch texts data = .ok (some method)) :
    ∃ point : ℤ → Point, method = fun call => append (point call.stamp) call := by
  obtain ⟨point, _, hmethod⟩ := dispatch_describes h
  exact ⟨point, hmethod⟩

theorem storeCall_append {texts : Texts} {authorised : Bool} {body : RequestBody}
    {method : Call → Store → Store} (h : storeCall texts authorised body = some method) :
    ∃ point : ℤ → Point, method = fun call => append (point call.stamp) call := by
  cases body with
  | json data =>
    simp only [storeCall] at h
    split at h
    · next hdispatch => exact dispatch_append (hdispatch.trans (congrArg Except.ok h))
    · cases h
  | _ => cases h

theorem postTelemetry_points (texts : Texts) (authorised : Bool) (body : RequestBody) (call : Call)
    (s : Store) : ∃ added : List Point,
      (postTelemetry texts authorised body call s).2.points = s.points ++ added ∧
      added.length = if (storeCall texts authorised body).isSome then 1 else 0 := by
  rw [postTelemetry_store]
  cases hcall : storeCall texts authorised body with
  | none => exact ⟨[], (List.append_nil _).symm, rfl⟩
  | some method =>
    obtain ⟨point, hmethod⟩ := storeCall_append hcall
    refine ⟨[point call.stamp], ?_, rfl⟩
    simp only [hmethod, append_points]

end Cherum.TelemetryRoutes
