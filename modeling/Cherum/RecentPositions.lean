import Cherum.LastTelemetry
import Cherum.PivotedRows
import Cherum.PythonFloat

/-! `query_recent_positions` with `GET /telemetry` in front of it, and
`query_positions_in_area`, over what a history of store calls has written. What
Flux makes of a query text is a parameter, with what is documented of its stages;
it refuses a range that does not begin before it ends. -/

namespace Cherum.RecentPositions
open HttpMessages LastTelemetry PythonFloat PythonJson RecordedSeries StoreRuns TelemetryRoutes
open TelemetryStore TimeSeries
open StringLiteral (Plain)

/-- `int` refuses a text with more digits. -/
def maxDigits : ℕ := 4300

def intDigits? (text : List Char) : Option ℕ :=
  if text.length ≤ maxDigits then digits? text else none

def signedInt? : List Char → Option ℤ
  | '-' :: text => (intDigits? text).map fun n => -(n : ℤ)
  | '+' :: text => (intDigits? text).map fun n => (n : ℤ)
  | text => (intDigits? text).map fun n => (n : ℤ)

/-- `int(text)`, `none` for `ValueError`. -/
def intText? (text : List Char) : Option ℤ := (numeral? text).bind signedInt?

/-- `request.args.get('minutes', 10, type=int)`. -/
def minutesOf (argument : Option String) : ℤ :=
  (argument.bind fun text => intText? text.toList).getD 10

/-- `request.args.get('drone_id', 'default')`. -/
def droneIdOf (argument : Option String) : String := argument.getD "default"

def telemetry (query : String → QueryResult) (bucket : String) (minutes droneId : Option String)
    (s : Store) : Response :=
  getTelemetry (query ((QueryText.queryRecentPositions bucket (minutesOf minutes)).text
    (droneIdOf droneId))) s

def minute : ℤ := 60 * 1000000

abbrev Row := ℤ × List (String × Json)

/-- `sort(columns: ["_time"], desc: true)`. -/
def newestFirst (tables : List (List Row)) : List (List Row) :=
  tables.map fun table => table.insertionSort fun a b => b.1 ≤ a.1

def recentTables (clock : ℤ → Json) (minutes asked : ℤ) (own : List (Entry Json)) :
    List (List FluxRecord) :=
  (newestFirst (pivot (ranged (minutes * minute) "position" asked own))).map
    (List.map (rowRecord clock))

/-- What is assumed of Flux for the text of `query_recent_positions`. -/
structure EvaluatesRecent (query : String → QueryResult) (clock : ℤ → Json) (asked : ℤ)
    (db : List (Entry Json)) (bucket droneId : String) (minutes : ℤ) : Prop where
  positive : 0 < minutes → Selects query (QueryText.queryRecentPositions bucket minutes) droneId db
    (recentTables clock minutes asked)
  refused : minutes ≤ 0 → ∃ e,
    query ((QueryText.queryRecentPositions bucket minutes).text droneId) = .error e

structure Area where
  minLat : String
  maxLat : String
  minLon : String
  maxLon : String

def areaText (bucket : String) (a : Area) (hours : ℤ) : String :=
  "\n        from(bucket: \"" ++ bucket ++
  "\")\n          |> range(start: -" ++ toString hours ++
  "h)\n          |> filter(fn: (r) => r[\"_measurement\"] == \"position\")\n" ++
  "          |> filter(fn: (r) => r[\"_field\"] == \"latitude\" or \n" ++
  "                              r[\"_field\"] == \"longitude\" or \n" ++
  "                              r[\"_field\"] == \"altitude\")\n" ++
  "          |> " ++ QueryText.pivotStage ++ "\n" ++
  "          |> filter(fn: (r) => r.latitude >= " ++ a.minLat ++ " and r.latitude <= " ++ a.maxLat ++
  ")\n          |> filter(fn: (r) => r.longitude >= " ++ a.minLon ++ " and r.longitude <= " ++
  a.maxLon ++ ")\n          |> sort(columns: [\"_time\"], desc: true)\n        "

def queryPositionsInArea (query : String → QueryResult) (bucket : String) (a : Area) (hours : ℤ)
    (s : Store) : Except PyError (List Json) :=
  queryRecentPositions (query (areaText bucket a hours)) s

structure Box where
  minLat : ℚ
  maxLat : ℚ
  minLon : ℚ
  maxLon : ℚ

/-- `low <= value and value <= high`, for the numbers a position has. -/
def between (low high : ℚ) : Json → Bool
  | .float (.finite true magnitude) => low ≤ -magnitude ∧ -magnitude ≤ high
  | .float (.finite false magnitude) => low ≤ magnitude ∧ magnitude ≤ high
  | _ => false

/-- The last two filters of the query; a missing column lets no row through. -/
def Box.contains (box : Box) (fields : List (String × Json)) : Bool :=
  (fields.lookup "latitude").any (between box.minLat box.maxLat) &&
    (fields.lookup "longitude").any (between box.minLon box.maxLon)

def isPositionField (field : String) : Bool :=
  field = "latitude" ∨ field = "longitude" ∨ field = "altitude"

def areaTables (clock : ℤ → Json) (box : Box) (hours asked : ℤ) (db : List (Entry Json)) :
    List (List FluxRecord) :=
  (newestFirst ((pivot ((ranged (hours * 60 * minute) "position" asked db).filter
    fun c => isPositionField c.field)).map
      (List.filter fun row => box.contains row.2))).map (List.map (rowRecord clock))

/-- What is assumed of Flux for this text, if it reads the bounds as these numbers. -/
structure EvaluatesArea (query : String → QueryResult) (clock : ℤ → Json) (asked : ℤ)
    (db : List (Entry Json)) (bucket : String) (a : Area) (box : Box) (hours : ℤ) : Prop where
  positive : 0 < hours → query (areaText bucket a hours) = .ok (areaTables clock box hours asked db)
  refused : hours ≤ 0 → ∃ e, query (areaText bucket a hours) = .error e

def isPosition (span asked : ℤ) (point : Point) : Bool :=
  point.measurement = "position" ∧ point.time.any fun t => asked - span ≤ t ∧ t < asked

def isOf (texts : Texts) (droneId : String) (point : Point) : Bool :=
  (tagTexts texts point).lookup "drone_id" = some droneId

def positionAnswer (clock : ℤ → Json) (point : Point) : Json :=
  .obj (("time", clock (point.time.getD 0)) ::
    ["latitude", "longitude", "altitude"].zip (point.fields.map Prod.snd))

theorem newestFirst_pivot {db : List (Entry Json)} (q : Row → Bool)
    (hordered : db.Pairwise fun a b => a.series = b.series → a.time < b.time)
    (hfields : ∀ e ∈ db, e.fields ≠ []) :
    newestFirst ((pivot (cells db)).map (List.filter q)) =
      ((db.map Entry.tagRank).dedup.insertionSort (· ≤ ·)).map fun r =>
        ((db.filter fun e => e.tagRank = r ∧ q e.row).map Entry.row).reverse := by
  rw [pivot_rows hordered hfields, newestFirst, List.map_map, List.map_map]
  refine List.map_congr_left fun r _ => ?_
  have hselect : ((db.filter fun e => e.tagRank = r).map Entry.row).filter q =
      (db.filter fun e => e.tagRank = r ∧ q e.row).map Entry.row := by
    rw [List.filter_map, List.filter_filter]
    congr 1
    refine List.filter_congr fun e _ => ?_
    simp [Bool.and_comm]
  have hrows : ((db.filter fun e => e.tagRank = r ∧ q e.row).map Entry.row).Pairwise
      fun a b => a.1 < b.1 := by
    refine List.pairwise_map.mpr ((hordered.filter _).imp_of_mem fun {a b} ha hb hab => hab ?_)
    have ha := (of_decide_eq_true (List.mem_filter.mp ha).2).1
    have hb := (of_decide_eq_true (List.mem_filter.mp hb).2).1
    exact Entry.series_of_tagRank (ha.trans hb.symm)
  simp only [Function.comp_apply, hselect]
  exact sort_desc_eq hrows

theorem oneTable {db : List (Entry Json)} {rank : List String} (h : ∀ e ∈ db, e.tagRank = rank) :
    (((db.map Entry.tagRank).dedup.insertionSort (· ≤ ·)).map fun r =>
      ((db.filter fun e => e.tagRank = r ∧ true).map Entry.row).reverse).flatten =
        (db.map Entry.row).reverse := by
  cases db with
  | nil => rfl
  | cons e db =>
    have hranks : ((e :: db).map Entry.tagRank).dedup.insertionSort (· ≤ ·) = [rank] := by
      apply dedup_sort_eq _ (List.pairwise_singleton _ _)
      intro r
      rw [List.mem_singleton]
      constructor
      · intro hr
        obtain ⟨q, hq, hqr⟩ := List.mem_map.mp hr
        rw [← hqr, h q hq]
      · intro hr
        exact List.mem_map.mpr ⟨e, List.mem_cons_self, (h e List.mem_cons_self).trans hr.symm⟩
    rw [hranks, List.map_singleton, List.flatten_singleton, List.filter_eq_self.mpr]
    exact fun q hq => decide_eq_true ⟨h q hq, rfl⟩

section Database

variable {texts : Texts} {now asked : ℤ} {history : List (Operation × Call)} {arrivals : List ℤ}

theorem position_of_created {point : Point} (hpoint : point ∈ created texts history)
    (h : point.measurement = "position") : ∃ lat lon alt droneId t,
      point = positionPoint lat lon alt droneId t := by
  obtain ⟨⟨operation, call⟩, _, ha⟩ := List.mem_filterMap.mp hpoint
  cases operation with
  | storePosition lat lon alt droneId =>
    cases ha
    exact ⟨lat, lon, alt, droneId, _, rfl⟩
  | flush => cases ha
  | _ =>
    cases ha
    simp [armedPoint, inAirPoint, batteryPoint, flightModePoint] at h

variable (hclock : Stamped texts history)
variable (hlength : arrivals.length = (performAll texts (new now) history).written.length)
variable (horder : arrivals.Pairwise (· ≤ ·))

include hlength in
theorem arrived_position {a : Arrived}
    (ha : a ∈ arrived (performAll texts (new now) history).written arrivals)
    (h : a.point.measurement = "position") : ∃ lat lon alt droneId t,
      a.point = positionPoint lat lon alt droneId t := by
  have hpoint : a.point ∈ (performAll texts (new now) history).written.flatten := by
    rw [← arrived_points hlength]
    exact List.mem_map_of_mem ha
  have hcreated : a.point ∈ created texts history := by
    rw [← written_append_buffer texts now history]
    exact List.mem_append_left _ hpoint
  exact position_of_created hcreated h

include hclock hlength horder in
theorem positions_ordered :
    ((entries texts (performAll texts (new now) history).written arrivals).filter
      fun e => e.measurement = "position").Pairwise
        fun a b => a.series = b.series → a.time < b.time := by
  rw [entries, List.filter_map, List.pairwise_map]
  refine ((arrived_times hclock hlength horder).filter _).imp_of_mem fun {a b} ha _ hab hseries => ?_
  obtain ⟨hmem, hposition⟩ := List.mem_filter.mp ha
  obtain ⟨_, _, _, _, _, hpoint⟩ := arrived_position hlength hmem (of_decide_eq_true hposition)
  obtain ⟨hle, heq⟩ := hab hseries
  refine lt_of_le_of_ne hle fun htime => ?_
  have hnone := (heq.mp htime).1
  rw [hpoint] at hnone
  cases hnone

include hclock hlength horder in
theorem filtered_ordered {p : Entry Json → Bool}
    (hposition : ∀ e, p e = true → e.measurement = "position") :
    ((entries texts (performAll texts (new now) history).written arrivals).filter p).Pairwise
      fun a b => a.series = b.series → a.time < b.time :=
  (positions_ordered hclock hlength horder).sublist <|
    List.monotone_filter_right _ fun e he => decide_eq_true (hposition e he)

include hlength in
theorem filtered_fields {p : Entry Json → Bool}
    (hposition : ∀ e, p e = true → e.measurement = "position") :
    ∀ e ∈ (entries texts (performAll texts (new now) history).written arrivals).filter p,
      e.fields.map Prod.fst = ["latitude", "longitude", "altitude"] := by
  intro e he
  obtain ⟨hmem, hpe⟩ := List.mem_filter.mp he
  obtain ⟨a, ha, hae⟩ := List.mem_map.mp hmem
  rw [← hae] at hpe ⊢
  obtain ⟨_, _, _, _, _, hpoint⟩ := arrived_position hlength ha (hposition _ hpe)
  rw [Arrived.entry, hpoint]
  rfl

include hlength in
theorem filtered_nonempty {p : Entry Json → Bool}
    (hposition : ∀ e, p e = true → e.measurement = "position") :
    ∀ e ∈ (entries texts (performAll texts (new now) history).written arrivals).filter p,
      e.fields ≠ [] := by
  intro e he hempty
  have hnames := filtered_fields hlength hposition e he
  rw [hempty] at hnames
  cases hnames

include hclock hlength horder in
theorem database_positions {p : Entry Json → Bool} (hp : ∀ a b, a.key = b.key → p a = p b)
    (hposition : ∀ e, p e = true → e.measurement = "position") :
    (database texts now history arrivals).filter p =
      (entries texts (performAll texts (new now) history).written arrivals).filter p := by
  rw [database, record_filter hp]
  apply record_eq_self.mpr
  refine (filtered_ordered hclock hlength horder hposition).imp fun {a b} hab hkey => ?_
  exact (hab (Entry.series_of_key hkey)).ne (congrArg Prod.snd hkey)

include hlength in
theorem rows_answers (clock : ℤ → Json) (p : Entry Json → Bool) (p' : Point → Bool)
    (hp : ∀ a ∈ arrived (performAll texts (new now) history).written arrivals,
      p (a.entry texts) = p' a.point)
    (hposition : ∀ point, p' point = true → point.measurement = "position") :
    (((entries texts (performAll texts (new now) history).written arrivals).filter p).map
      Entry.row).map (fun row => positionBody (rowRecord clock row)) =
      ((performAll texts (new now) history).written.flatten.filter p').map
        (positionAnswer clock) := by
  rw [← arrived_points hlength, entries, List.filter_map, List.filter_map, List.map_map,
    List.map_map, List.map_map]
  have hfilter : (arrived (performAll texts (new now) history).written arrivals).filter
      (p ∘ Arrived.entry texts) =
      (arrived (performAll texts (new now) history).written arrivals).filter
        (p' ∘ Arrived.point) := List.filter_congr hp
  rw [hfilter]
  refine List.map_congr_left fun a ha => ?_
  obtain ⟨hmem, hpoint⟩ := List.mem_filter.mp ha
  obtain ⟨lat, lon, alt, droneId, t, heq⟩ := arrived_position hlength hmem (hposition _ hpoint)
  simp only [Function.comp_apply, Arrived.entry, Entry.row, heq]
  rfl

def entryIn (span asked : ℤ) (e : Entry Json) : Bool :=
  asked - span ≤ e.time ∧ e.time < asked ∧ e.measurement = "position"

theorem ranged_eq (span asked : ℤ) (db : List (Entry Json)) :
    ranged span "position" asked db = cells (db.filter (entryIn span asked)) := by
  refine cells_filter fun e _ c hc => ?_
  obtain ⟨field, _, hfield⟩ := Entry.mem_cells.mp hc
  rw [← hfield]
  rfl

theorem entryIn_position {span : ℤ} {e : Entry Json} (h : entryIn span asked e = true) :
    e.measurement = "position" := (of_decide_eq_true h).2.2

theorem entryIn_key (span asked : ℤ) {a b : Entry Json} (h : a.key = b.key) :
    entryIn span asked a = entryIn span asked b := by
  have htime : a.time = b.time := congrArg Prod.snd h
  have hmeasurement : a.measurement = b.measurement :=
    congrArg Prod.fst (Entry.series_of_key h)
  rw [entryIn, entryIn, htime, hmeasurement]

include hlength in
theorem entryIn_point (span : ℤ) {a : Arrived}
    (ha : a ∈ arrived (performAll texts (new now) history).written arrivals) :
    entryIn span asked (a.entry texts) = isPosition span asked a.point := by
  by_cases h : a.point.measurement = "position"
  · obtain ⟨lat, lon, alt, droneId, t, hpoint⟩ := arrived_position hlength ha h
    simp [entryIn, isPosition, Arrived.entry, hpoint, positionPoint, and_comm]
  · simp [entryIn, isPosition, Arrived.entry, h]

include hlength in
theorem tagRank_position {e : Entry Json} {droneId : String}
    (he : e ∈ entries texts (performAll texts (new now) history).written arrivals)
    (hposition : e.measurement = "position") (hdrone : QueryText.droneOf e = some droneId) :
    e.tagRank = ["position", "drone_id", droneId] := by
  obtain ⟨a, ha, hae⟩ := List.mem_map.mp he
  rw [← hae] at hposition hdrone ⊢
  obtain ⟨lat, lon, alt, id, t, hpoint⟩ := arrived_position hlength ha hposition
  simp only [QueryText.droneOf, Arrived.entry, hpoint] at hdrone
  have hid : pyStr texts id = droneId := Option.some.inj hdrone
  simp only [Entry.tagRank, Arrived.entry, hpoint, tagTexts, positionPoint, List.map_singleton,
    List.flatMap_singleton, hid]

include hclock hlength horder in
/-- The tables before the records are made of them, of one drone. -/
theorem recent_rows (droneId : String) (span asked : ℤ) :
    (newestFirst (pivot (ranged span "position" asked
      (ofDrone droneId (database texts now history arrivals))))).flatten =
        ((((entries texts (performAll texts (new now) history).written arrivals).filter
          fun e => QueryText.droneOf e = some droneId ∧ entryIn span asked e)).map
            Entry.row).reverse := by
  have hposition : ∀ e : Entry Json, decide (QueryText.droneOf e = some droneId ∧
      entryIn span asked e) = true → e.measurement = "position" :=
    fun e he => entryIn_position (of_decide_eq_true he).2
  have hselect : (ofDrone droneId (database texts now history arrivals)).filter
      (entryIn span asked) =
        (entries texts (performAll texts (new now) history).written arrivals).filter
          fun e => QueryText.droneOf e = some droneId ∧ entryIn span asked e := by
    rw [ofDrone, List.filter_filter, ← database_positions hclock hlength horder _ hposition]
    · refine List.filter_congr fun e _ => ?_
      simp [Bool.and_comm]
    · intro a b hkey
      have htags : a.tags = b.tags := congrArg Prod.snd (Entry.series_of_key hkey)
      rw [entryIn_key span asked hkey, QueryText.droneOf, QueryText.droneOf, htags]
  have hordered := filtered_ordered hclock hlength horder hposition
  have hfields := filtered_nonempty hlength hposition
  have htables := newestFirst_pivot (fun _ => true) hordered hfields
  rw [List.map_congr_left (fun table _ => List.filter_true table), List.map_id'] at htables
  rw [ranged_eq, hselect, htables]
  apply oneTable
  intro e he
  obtain ⟨hmem, hcondition⟩ := List.mem_filter.mp he
  obtain ⟨hdrone, hin⟩ := of_decide_eq_true hcondition
  exact tagRank_position hlength hmem (entryIn_position hin) hdrone

include hclock hlength horder in
theorem area_rows (box : Box) (span asked : ℤ) :
    newestFirst ((pivot ((ranged span "position" asked (database texts now history arrivals)).filter
      fun c => isPositionField c.field)).map (List.filter fun row => box.contains row.2)) =
        ((((entries texts (performAll texts (new now) history).written arrivals).filter
          (entryIn span asked)).map Entry.tagRank).dedup.insertionSort (· ≤ ·)).map fun r =>
            ((((entries texts (performAll texts (new now) history).written arrivals).filter
              fun e => entryIn span asked e ∧ e.tagRank = r ∧ box.contains e.fields)).map
                Entry.row).reverse := by
  have hposition : ∀ e : Entry Json, entryIn span asked e = true → e.measurement = "position" :=
    fun e => entryIn_position
  have hselect := database_positions hclock hlength horder (fun a b => entryIn_key span asked)
    hposition
  have hcells : ∀ c ∈ cells ((entries texts (performAll texts (new now) history).written
      arrivals).filter (entryIn span asked)), isPositionField c.field = true := by
    intro c hc
    obtain ⟨e, he, hce⟩ := List.mem_flatMap.mp hc
    obtain ⟨field, hfield, hcell⟩ := Entry.mem_cells.mp hce
    have hname : field.1 ∈ e.fields.map Prod.fst := List.mem_map_of_mem hfield
    rw [filtered_fields hlength hposition e he] at hname
    rw [← hcell]
    simpa [isPositionField] using hname
  rw [ranged_eq, hselect, List.filter_eq_self.mpr hcells,
    newestFirst_pivot _ (filtered_ordered hclock hlength horder hposition)
      (filtered_nonempty hlength hposition)]
  refine List.map_congr_left fun r _ => ?_
  rw [List.filter_filter]
  congr 2
  refine List.filter_congr fun e _ => ?_
  rw [Bool.eq_iff_iff]
  simp [Entry.row, and_comm]

end Database

def pointRank (texts : Texts) (point : Point) : List String :=
  point.measurement :: (tagTexts texts point).flatMap fun tag => [tag.1, tag.2]

/-- The combinations of tags that have positions in the time span, in order. -/
def positionRanks (texts : Texts) (span asked : ℤ) (points : List Point) : List (List String) :=
  ((points.filter (isPosition span asked)).map (pointRank texts)).dedup.insertionSort (· ≤ ·)

/-- `GET /telemetry` answers with the drone's written positions of the last
minutes, each once and the newest first, or with the error if the number of
minutes is not positive or the client is closed. -/
theorem recent_positions (texts : Texts) (clock : ℤ → Json) (now asked : ℤ)
    (history : List (Operation × Call)) (arrivals : List ℤ) (hclock : Stamped texts history)
    (hlength : arrivals.length = (performAll texts (new now) history).written.length)
    (horder : arrivals.Pairwise (· ≤ ·)) (bucket : String) (minutes droneId : Option String)
    (hplain : Plain (droneIdOf droneId).toList) (query : String → QueryResult)
    (hflux : EvaluatesRecent query clock asked (database texts now history arrivals) bucket
      (droneIdOf droneId) (minutesOf minutes)) (s : Store) :
    telemetry query bucket minutes droneId s =
      if s.clientClosed = true ∨ minutesOf minutes ≤ 0 then failedToQuery
      else ⟨200, .json (.arr (((performAll texts (new now) history).written.flatten.filter
        fun point => isOf texts (droneIdOf droneId) point ∧
          isPosition (minutesOf minutes * minute) asked point).reverse.map
            (positionAnswer clock)))⟩ := by
  unfold telemetry
  generalize minutesOf minutes = m at hflux
  generalize droneIdOf droneId = id at hplain hflux
  cases hclosed : s.clientClosed with
  | true => simp [getTelemetry, queryRecentPositions, hclosed]
  | false =>
    by_cases hm : m ≤ 0
    · obtain ⟨e, hrefused⟩ := hflux.refused hm
      simp [getTelemetry, queryRecentPositions, hclosed, hrefused, hm, Except.map]
    · have hquery := (hflux.positive (not_le.mp hm)).plain hplain
      have hrows := recent_rows hclock hlength horder id (m * minute) asked
      have hanswers := rows_answers hlength clock
        (fun e => decide (QueryText.droneOf e = some id ∧ entryIn (m * minute) asked e))
        (fun point => decide (isOf texts id point ∧ isPosition (m * minute) asked point))
        (fun a ha => by
          have hdrone : QueryText.droneOf (a.entry texts) = some id ↔ isOf texts id a.point = true :=
            decide_eq_true_iff.symm
          simp only [entryIn_point hlength _ ha, hdrone])
        (fun point hpoint => (of_decide_eq_true (of_decide_eq_true hpoint).2).1)
      simp only [getTelemetry, queryRecentPositions, hclosed, hquery, recentTables, hm, if_false,
        Bool.false_eq_true, or_self, Except.map]
      rw [← List.map_flatten, hrows, List.map_map, List.map_reverse, List.map_reverse]
      exact congrArg (fun items => Response.mk 200 (.json (.arr (List.reverse items)))) hanswers

def zero : PyFloat := .finite false 0

def zeroPosition (droneId : String) (time : ℤ) : Point :=
  positionPoint zero zero zero (.str droneId) time

/-- Two drones report twice each. -/
def twoDrones : List (Operation × Call) :=
  [(.storePosition zero zero zero (.str "default"), callAt 1),
    (.storePosition zero zero zero (.str "other"), callAt 2),
    (.storePosition zero zero zero (.str "default"), callAt 3),
    (.storePosition zero zero zero (.str "other"), callAt 4), (.flush, callAt 5)]

theorem twoDrones_written : (performAll noTexts (new 0) twoDrones).written =
    [[zeroPosition "default" 1, zeroPosition "other" 2, zeroPosition "default" 3,
      zeroPosition "other" 4]] := rfl

theorem twoDrones_stamped : Stamped noTexts twoDrones := by
  simp [Stamped, twoDrones, callAt]

/-- A database that answers both texts, whatever is asked of it. -/
def tablesFor (asked : ℤ) (db : List (Entry Json)) (text : String) : QueryResult :=
  if text = (QueryText.queryRecentPositions "drone_telemetry" 10).text "default" then
    .ok (recentTables Json.int 10 asked (ofDrone "default" db))
  else .ok (areaTables Json.int ⟨-1, 1, -1, 1⟩ 24 asked db)

theorem recent_of_default :
    telemetry (tablesFor 100 (database noTexts 0 twoDrones [10])) "drone_telemetry" none none
        (new 0) =
      ⟨200, .json (.arr [positionAnswer Json.int (zeroPosition "default" 3),
        positionAnswer Json.int (zeroPosition "default" 1)])⟩ := by
  have hflux : EvaluatesRecent (tablesFor 100 (database noTexts 0 twoDrones [10])) Json.int 100
      (database noTexts 0 twoDrones [10]) "drone_telemetry" (droneIdOf none) (minutesOf none) := by
    refine ⟨fun _ own hown => ?_, fun h => absurd h (by decide)⟩
    have hdefault : own = ofDrone "default" (database noTexts 0 twoDrones [10]) :=
      Option.some.inj (hown.symm.trans (QueryText.records_plain plain_default _))
    rw [hdefault]
    exact if_pos rfl
  have hrecent := recent_positions noTexts Json.int 0 100 twoDrones [10] twoDrones_stamped rfl
    (by decide) "drone_telemetry" none none plain_default _ hflux (new 0)
  rw [if_neg (by decide), twoDrones_written] at hrecent
  exact hrecent

/-- `query_positions_in_area` returns, drone after drone, the written positions of
the last hours inside the box, each once and the newest first. -/
theorem positions_in_area (texts : Texts) (clock : ℤ → Json) (now asked : ℤ)
    (history : List (Operation × Call)) (arrivals : List ℤ) (hclock : Stamped texts history)
    (hlength : arrivals.length = (performAll texts (new now) history).written.length)
    (horder : arrivals.Pairwise (· ≤ ·)) (bucket : String) (a : Area) (box : Box) (hours : ℤ)
    (query : String → QueryResult)
    (hflux : EvaluatesArea query clock asked (database texts now history arrivals) bucket a box
      hours) (s : Store) :
    if s.clientClosed = true ∨ hours ≤ 0 then
      ∃ e, queryPositionsInArea query bucket a hours s = .error e
    else queryPositionsInArea query bucket a hours s =
      .ok ((positionRanks texts (hours * 60 * minute) asked
        (performAll texts (new now) history).written.flatten).flatMap fun r =>
          (((performAll texts (new now) history).written.flatten.filter fun point =>
            isPosition (hours * 60 * minute) asked point ∧ pointRank texts point = r ∧
              box.contains point.fields).reverse.map (positionAnswer clock))) := by
  cases hclosed : s.clientClosed with
  | true => simp [queryPositionsInArea, queryRecentPositions, hclosed]
  | false =>
    by_cases hhours : hours ≤ 0
    · obtain ⟨e, hrefused⟩ := hflux.refused hhours
      simp [queryPositionsInArea, queryRecentPositions, hclosed, hrefused, hhours, Except.map]
    · simp only [queryPositionsInArea, queryRecentPositions, hclosed,
        hflux.positive (not_le.mp hhours), areaTables, hhours, if_false, Bool.false_eq_true, or_self,
        Except.map]
      generalize hours * 60 * minute = span
      have hrows := area_rows hclock hlength horder box span asked
      have hranks : (((entries texts (performAll texts (new now) history).written arrivals).filter
          (entryIn span asked)).map Entry.tagRank) =
          (((performAll texts (new now) history).written.flatten.filter
            (isPosition span asked)).map (pointRank texts)) := by
        have hfilter : (arrived (performAll texts (new now) history).written arrivals).filter
            (entryIn span asked ∘ Arrived.entry texts) =
            (arrived (performAll texts (new now) history).written arrivals).filter
              (isPosition span asked ∘ Arrived.point) :=
          List.filter_congr fun b hb => entryIn_point hlength span hb
        rw [← arrived_points hlength, entries, List.filter_map, List.filter_map, List.map_map,
          List.map_map, hfilter]
        rfl
      have hanswers := fun r => rows_answers hlength clock
        (fun e => decide (entryIn span asked e ∧ e.tagRank = r ∧ box.contains e.fields))
        (fun point => decide (isPosition span asked point ∧ pointRank texts point = r ∧
          box.contains point.fields))
        (fun b hb => by simp only [entryIn_point hlength span hb]; rfl)
        (fun point hpoint => (of_decide_eq_true (of_decide_eq_true hpoint).1).1)
      rw [hrows, positionRanks, ← hranks, List.map_map, ← List.flatMap_def, List.map_flatMap]
      refine congrArg Except.ok (List.flatMap_congr fun r _ => ?_)
      rw [Function.comp_apply, List.map_map, List.map_reverse, List.map_reverse]
      exact congrArg List.reverse (hanswers r)

theorem area_of_both :
    queryPositionsInArea (tablesFor 100 (database noTexts 0 twoDrones [10])) "drone_telemetry"
        ⟨"-1.0", "1.0", "-1.0", "1.0"⟩ 24 (new 0) =
      .ok [positionAnswer Json.int (zeroPosition "default" 3),
        positionAnswer Json.int (zeroPosition "default" 1),
        positionAnswer Json.int (zeroPosition "other" 4),
        positionAnswer Json.int (zeroPosition "other" 2)] := by
  have hflux : EvaluatesArea (tablesFor 100 (database noTexts 0 twoDrones [10])) Json.int 100
      (database noTexts 0 twoDrones [10]) "drone_telemetry" ⟨"-1.0", "1.0", "-1.0", "1.0"⟩
      ⟨-1, 1, -1, 1⟩ 24 := by
    refine ⟨fun _ => ?_, fun h => absurd h (by decide)⟩
    exact if_neg (by decide +kernel)
  have harea := positions_in_area noTexts Json.int 0 100 twoDrones [10] twoDrones_stamped rfl
    (by decide) "drone_telemetry" ⟨"-1.0", "1.0", "-1.0", "1.0"⟩ ⟨-1, 1, -1, 1⟩ 24 _ hflux (new 0)
  rw [if_neg (by decide), twoDrones_written] at harea
  exact harea

end Cherum.RecentPositions
