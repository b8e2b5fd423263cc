import Cherum.PythonJson
import Cherum.StringLiteral
import Cherum.TimeSeries

/-! The Flux texts of the `last_*` methods and of `query_recent_positions`. The
id of the drone comes from the query string of a request and is put between the
quotes of a literal as it is, so what the database compares with is what the
rules for literals make of it. -/

namespace Cherum.QueryText
open PythonJson StringLiteral TimeSeries

/-- A query text around the id of the drone: what stands before it, up to and
including the quote, and what stands behind the quote that follows it. -/
structure Template where
  head : String
  remainder : String

def Template.text (t : Template) (droneId : String) : String :=
  t.head ++ droneId ++ "\"" ++ t.remainder

/-- The text the six queries share, with their own stages at the end. -/
def filtered (bucket range measurement : String) (stages : List String) : Template where
  head := "\n        from(bucket: \"" ++ bucket ++
    "\")\n          |> range(start: -" ++ range ++
    ")\n          |> filter(fn: (r) => r[\"_measurement\"] == \"" ++ measurement ++
    "\")\n          |> filter(fn: (r) => r[\"drone_id\"] == \""
  remainder := ")\n" ++ String.join (stages.map fun stage => "          |> " ++ stage ++ "\n") ++
    "        "

def pivotStage : String :=
  "pivot(rowKey:[\"_time\"], columnKey: [\"_field\"], valueColumn: \"_value\")"

def lastPosition (bucket : String) : Template :=
  filtered bucket "24h" "position" ["last()", pivotStage]

def lastBattery (bucket : String) : Template := filtered bucket "24h" "battery" ["last()"]

def lastFlightMode (bucket : String) : Template := filtered bucket "24h" "flight_mode" ["last()"]

def lastArmed (bucket : String) : Template := filtered bucket "24h" "armed" ["last()"]

def lastInAir (bucket : String) : Template := filtered bucket "24h" "in_air" ["last()"]

def queryRecentPositions (bucket : String) (minutes : ℤ) : Template :=
  filtered bucket (toString minutes ++ "m") "position"
    [pivotStage, "sort(columns: [\"_time\"], desc: true)"]

def templates (bucket : String) (minutes : ℤ) : List Template :=
  [lastPosition bucket, lastBattery bucket, lastFlightMode bucket, lastArmed bucket,
    lastInAir bucket, queryRecentPositions bucket minutes]

example : (lastArmed "drone_telemetry").text "default" = "
        from(bucket: \"drone_telemetry\")
          |> range(start: -24h)
          |> filter(fn: (r) => r[\"_measurement\"] == \"armed\")
          |> filter(fn: (r) => r[\"drone_id\"] == \"default\")
          |> last()
        " := by decide +kernel

/-- What the literal that is compared with `r["drone_id"]` denotes, and the text
behind it. -/
def Template.literal (t : Template) (droneId : String) : Option (List UInt8 × List Char) :=
  readLiteral ((t.text droneId).toList.drop t.head.length)

def droneOf (e : Entry Json) : Option String := e.tags.lookup "drone_id"

/-- The records the filter on the drone lets through to the other stages, if
these stages are what follows the literal. -/
def Template.records (t : Template) (droneId : String) (db : List (Entry Json)) :
    Option (List (Entry Json)) :=
  (t.literal droneId).bind fun literal =>
    if literal.2 = t.remainder.toList then
      some (db.filter fun e => (droneOf e).map (fun id => bytes id.toList) = some literal.1)
    else none

/-- The id stays inside its literal in all six queries, and the records of other
drones do not reach their other stages. -/
structure KeptApart (droneId : String) : Prop where
  literal : ∀ bucket minutes, ∀ t ∈ templates bucket minutes,
    t.literal droneId = some (bytes droneId.toList, t.remainder.toList)
  records : ∀ bucket minutes, ∀ t ∈ templates bucket minutes, ∀ db db' : List (Entry Json),
    db.filter (fun e => droneOf e = some droneId) =
        db'.filter (fun e => droneOf e = some droneId) →
      t.records droneId db = t.records droneId db'

theorem drop_head (t : Template) (droneId : String) :
    (t.text droneId).toList.drop t.head.length =
      droneId.toList ++ '"' :: t.remainder.toList := by
  have htext : (t.text droneId).toList =
      t.head.toList ++ (droneId.toList ++ '"' :: t.remainder.toList) := by
    simp only [Template.text, String.toList_append, List.append_assoc]
    rfl
  rw [htext, ← String.length_toList, List.drop_left]

theorem literal_iff (t : Template) (droneId : String) :
    t.literal droneId = some (bytes droneId.toList, t.remainder.toList) ↔
      Plain droneId.toList := by
  rw [Template.literal, drop_head]
  exact readLiteral_iff

theorem records_plain {t : Template} {droneId : String} (h : Plain droneId.toList)
    (db : List (Entry Json)) :
    t.records droneId db = some (db.filter fun e => droneOf e = some droneId) := by
  rw [Template.records, (literal_iff t droneId).mpr h, Option.bind_some, if_pos rfl]
  refine congrArg some (List.filter_congr fun e _ => decide_eq_decide.mpr ?_)
  cases droneOf e with
  | none => simp
  | some id =>
    rw [Option.map_some, Option.some.injEq, Option.some.injEq, bytes_injective.eq_iff,
      String.toList_inj]

/-- An id is kept apart exactly when it has no quote, no backslash and no
interpolation. -/
theorem keptApart_iff (droneId : String) : KeptApart droneId ↔ Plain droneId.toList := by
  constructor
  · intro h
    exact (literal_iff _ droneId).mp
      (h.literal "drone_telemetry" 10 (lastPosition "drone_telemetry") List.mem_cons_self)
  · intro h
    refine ⟨fun _ _ t _ => (literal_iff t droneId).mpr h, fun _ _ t _ db db' hown => ?_⟩
    rw [records_plain h, records_plain h, hown]

/-- An id that goes on as a condition of its own. -/
def anyDrone : String := "x\" or r[\"drone_id\"] != \""

/-- The literal ends after one letter, and the filter lets the records of every
drone through. -/
theorem every_drone_selected :
    (lastArmed "drone_telemetry").literal anyDrone = some (bytes "x".toList,
      " or r[\"drone_id\"] != \"\")\n          |> last()\n        ".toList) ∧
    ¬ KeptApart anyDrone := by
  constructor
  · rw [Template.literal, drop_head]
    have hx : Plain "x".toList := plain_cons.mpr ⟨by decide, by decide, by decide, plain_nil⟩
    exact readLiteral_plain hx
  · intro h
    have hplain := (literal_iff _ anyDrone).mp
      (h.literal "drone_telemetry" 10 (lastPosition "drone_telemetry") List.mem_cons_self)
    exact hplain.quote (by decide)

end Cherum.QueryText
