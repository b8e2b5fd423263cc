import Cherum.QueryText
import Cherum.RecordedSeries
import Cherum.TelemetryRoutes

/-! The `last_*` methods over a database that holds everything stored. What Flux
makes of a query text is a parameter, with what is documented of it: a result has
one table for each measurement, field and combination of tags, `last` keeps the
newest record of each, `pivot` makes rows of the fields. The methods read the first
record of the first table. Only battery points of a drone can differ in their tags:
`last_battery` answers with the newest point of the battery whose id comes first as
a text. -/

namespace Cherum.LastTelemetry
open PythonJson RecordedSeries StoreRuns TelemetryRoutes TelemetryStore TimeSeries
open QueryText (Template droneOf records_plain)
open StringLiteral (Plain)

section Methods

variable (query : String → QueryResult) (bucket droneId : String)

def lastPosition : Except PyError Json :=
  TelemetryRoutes.lastPosition (query ((QueryText.lastPosition bucket).text droneId))

def lastBattery : Except PyError Json :=
  TelemetryRoutes.lastBattery (query ((QueryText.lastBattery bucket).text droneId))

def lastFlightMode : Except PyError Json :=
  TelemetryRoutes.lastFlightMode (query ((QueryText.lastFlightMode bucket).text droneId))

def lastArmed : Except PyError Json :=
  TelemetryRoutes.lastArmed (query ((QueryText.lastArmed bucket).text droneId))

def lastInAir : Except PyError Json :=
  TelemetryRoutes.lastInAir (query ((QueryText.lastInAir bucket).text droneId))

end Methods

/-- `-24h`, in microseconds. -/
def day : ℤ := 24 * 3600 * 1000000

def ranged (span : ℤ) (measurement : String) (asked : ℤ) (db : List (Entry Json)) :
    List (Cell Json) :=
  (cells db).filter fun c =>
    asked - span ≤ c.time ∧ c.time < asked ∧ c.measurement = measurement

def cellRecord (clock : ℤ → Json) (c : Cell Json) : FluxRecord :=
  ⟨clock c.time, c.value, ("_time", clock c.time) :: ("_value", c.value) ::
    ("_field", .str c.field) :: ("_measurement", .str c.measurement) ::
      c.tags.map fun tag => (tag.1, .str tag.2)⟩

/-- A pivoted row has no `_value`. -/
def rowRecord (clock : ℤ → Json) (row : ℤ × List (String × Json)) : FluxRecord :=
  ⟨clock row.1, .null, ("_time", clock row.1) :: row.2⟩

/-- `last()` of the records of a drone, then `pivot`. -/
def lastRows (clock : ℤ → Json) (asked : ℤ) (own : List (Entry Json)) : List (List FluxRecord) :=
  (pivot (newest (ranged day "position" asked own))).map (List.map (rowRecord clock))

def lastValues (clock : ℤ → Json) (measurement : String) (asked : ℤ) (own : List (Entry Json)) :
    List (List FluxRecord) :=
  (tablesBy Cell.rank (newest (ranged day measurement asked own))).map (List.map (cellRecord clock))

/-- The text selects the records of a drone by its literal, and its other stages make
these tables of them. -/
def Selects (query : String → QueryResult) (t : Template) (droneId : String)
    (db : List (Entry Json)) (tables : List (Entry Json) → List (List FluxRecord)) : Prop :=
  ∀ own, t.records droneId db = some own → query (t.text droneId) = .ok (tables own)

/-- What is assumed of Flux at the time of the question. -/
structure Evaluates (query : String → QueryResult) (clock : ℤ → Json) (asked : ℤ)
    (db : List (Entry Json)) (bucket droneId : String) : Prop where
  position : Selects query (QueryText.lastPosition bucket) droneId db (lastRows clock asked)
  battery : Selects query (QueryText.lastBattery bucket) droneId db
    (lastValues clock "battery" asked)
  flightMode : Selects query (QueryText.lastFlightMode bucket) droneId db
    (lastValues clock "flight_mode" asked)
  armed : Selects query (QueryText.lastArmed bucket) droneId db (lastValues clock "armed" asked)
  inAir : Selects query (QueryText.lastInAir bucket) droneId db (lastValues clock "in_air" asked)

def ofDrone (droneId : String) (db : List (Entry Json)) : List (Entry Json) :=
  db.filter fun e => droneOf e = some droneId

theorem Selects.plain {query : String → QueryResult} {t : Template} {droneId : String}
    {db : List (Entry Json)} {tables : List (Entry Json) → List (List FluxRecord)}
    (h : Selects query t droneId db tables) (hplain : Plain droneId.toList) :
    query (t.text droneId) = .ok (tables (ofDrone droneId db)) :=
  h _ (records_plain hplain db)

def isFor (measurement droneId : String) (series : String × List (String × String)) : Bool :=
  series.1 = measurement ∧ series.2.lookup "drone_id" = some droneId

def lastOf (texts : Texts) (passes : String × List (String × String) → Bool)
    (points : List Point) : Option Point :=
  (points.filter fun point => passes (pointSeries texts point)).getLast?

def lastStored (texts : Texts) (measurement droneId : String) : List Point → Option Point :=
  lastOf texts (isFor measurement droneId)

/-- The answer has the field values of the point under these keys, or is None
if there is no point. -/
def Answers (keys : List String) (answer : Except PyError Json) : Option Point → Prop
  | none => answer = .ok .null
  | some point => ∃ time, answer =
      .ok (.obj (("time", time) :: keys.zip (point.fields.map Prod.snd)))

/-- The five methods answer with what was stored last. -/
structure AllLast (texts : Texts) (query : String → QueryResult) (bucket droneId : String)
    (points : List Point) : Prop where
  position : Answers ["latitude", "longitude", "altitude"] (lastPosition query bucket droneId)
    (lastStored texts "position" droneId points)
  battery : Answers ["percentage"] (lastBattery query bucket droneId)
    (lastStored texts "battery" droneId points)
  flightMode : Answers ["mode"] (lastFlightMode query bucket droneId)
    (lastStored texts "flight_mode" droneId points)
  armed : Answers ["armed"] (lastArmed query bucket droneId)
    (lastStored texts "armed" droneId points)
  inAir : Answers ["in_air"] (lastInAir query bucket droneId)
    (lastStored texts "in_air" droneId points)

def batteryId (texts : Texts) (point : Point) : String :=
  ((tagTexts texts point).lookup "battery_id").getD ""

/-- The last point of the drone's battery with the least id. -/
structure LeastBattery (texts : Texts) (droneId : String) (points : List Point) (point : Point) :
    Prop where
  battery : isFor "battery" droneId (pointSeries texts point)
  last : lastOf texts (fun series => series = pointSeries texts point) points = some point
  least : ∀ p ∈ points, isFor "battery" droneId (pointSeries texts p) →
    batteryId texts point ≤ batteryId texts p

/-- The battery with the least id was last stored with the value that was stored
last for the drone. -/
def BatteryAgrees (texts : Texts) (droneId : String) (points : List Point) : Prop :=
  ∀ newest, lastStored texts "battery" droneId points = some newest →
    ∀ least, LeastBattery texts droneId points least → least.fields = newest.fields

def schema : List (String × List String × List String) :=
  [("armed", ["drone_id"], ["armed"]), ("in_air", ["drone_id"], ["in_air"]),
    ("position", ["drone_id"], ["latitude", "longitude", "altitude"]),
    ("battery", ["drone_id", "battery_id"], ["remaining_percent"]),
    ("flight_mode", ["drone_id"], ["mode"])]

/-- The database after the history, its requests arriving at these times. -/
def database (texts : Texts) (now : ℤ) (history : List (Operation × Call)) (arrivals : List ℤ) :
    List (Entry Json) :=
  record (entries texts (performAll texts (new now) history).written arrivals)

/-- At the time of the question everything the history stored is written, within
the last 24 hours and in order. -/
structure Written (texts : Texts) (now : ℤ) (history : List (Operation × Call))
    (arrivals : List ℤ) (asked : ℤ) : Prop where
  clock : Stamped texts history
  requests : arrivals.length = (performAll texts (new now) history).written.length
  order : arrivals.Pairwise (· ≤ ·)
  buffer : (performAll texts (new now) history).buffer = []
  recent : ∀ e ∈ entries texts (performAll texts (new now) history).written arrivals,
    asked - day ≤ e.time ∧ e.time < asked

variable {texts : Texts} {now : ℤ} {history : List (Operation × Call)} {arrivals : List ℤ}

theorem created_schema {point : Point} (h : point ∈ created texts history) :
    schema.lookup point.measurement =
      some (point.tags.map Prod.fst, point.fields.map Prod.fst) := by
  obtain ⟨a, _, ha⟩ := List.mem_filterMap.mp h
  obtain ⟨operation, call⟩ := a
  cases operation <;> cases ha <;> rfl

theorem mem_of_lastOf {passes : String × List (String × String) → Bool} {points : List Point}
    {point : Point} (h : lastOf texts passes points = some point) :
    point ∈ points ∧ passes (pointSeries texts point) = true :=
  List.mem_filter.mp (List.mem_of_getLast? h)

theorem names_of_lastStored {measurement droneId : String} {tags fields : List String}
    {point : Point} (hschema : schema.lookup measurement = some (tags, fields))
    (h : lastStored texts measurement droneId (created texts history) = some point) :
    point.fields.map Prod.fst = fields := by
  obtain ⟨hpoint, hfor⟩ := mem_of_lastOf h
  have hname : point.measurement = measurement := (of_decide_eq_true hfor).1
  have hnames := created_schema hpoint
  rw [hname, hschema, Option.some.injEq, Prod.mk.injEq] at hnames
  exact hnames.2.symm

theorem fields_of_schema {p q : Point} (hp : p ∈ created texts history)
    (hq : q ∈ created texts history) (h : p.measurement = q.measurement) :
    p.fields.map Prod.fst = q.fields.map Prod.fst := by
  have hnames := created_schema hp
  rw [h, created_schema hq, Option.some.injEq, Prod.mk.injEq] at hnames
  exact hnames.2.symm

theorem series_of_isFor {point : Point} {measurement droneId : String}
    (hpoint : point ∈ created texts history) (hmeasurement : measurement ≠ "battery")
    (h : isFor measurement droneId (pointSeries texts point)) :
    pointSeries texts point = (measurement, [("drone_id", droneId)]) := by
  obtain ⟨hname, hdrone⟩ := of_decide_eq_true h
  obtain ⟨a, _, ha⟩ := List.mem_filterMap.mp hpoint
  obtain ⟨operation, call⟩ := a
  cases operation with
  | storeBattery batteryId percent id =>
    cases ha
    exact absurd hname.symm hmeasurement
  | flush => cases ha
  | _ =>
    cases ha
    have hid := Option.some.inj hdrone
    rw [← hname, ← hid]
    rfl

theorem battery_series {point : Point} {droneId : String}
    (hpoint : point ∈ created texts history)
    (h : isFor "battery" droneId (pointSeries texts point)) :
    pointSeries texts point =
        ("battery", [("drone_id", droneId), ("battery_id", batteryId texts point)]) ∧
      ∃ value, point.fields = [("remaining_percent", value)] := by
  obtain ⟨hname, hdrone⟩ := of_decide_eq_true h
  obtain ⟨a, _, ha⟩ := List.mem_filterMap.mp hpoint
  obtain ⟨operation, call⟩ := a
  cases operation with
  | storeBattery batteryId percent id =>
    cases ha
    have hid := Option.some.inj hdrone
    rw [← hid]
    exact ⟨rfl, percent, rfl⟩
  | flush => cases ha
  | _ =>
    cases ha
    simp [pointSeries, armedPoint, inAirPoint, positionPoint, flightModePoint] at hname

def batteryCell (droneId batteryId : String) (time : ℤ) (value : Json) : Cell Json :=
  ⟨"battery", [("drone_id", droneId), ("battery_id", batteryId)], "remaining_percent", time, value⟩

theorem battery_cells {droneId : String} {point : Point} {e : Entry Json}
    (hpoint : point ∈ created texts history)
    (hfor : isFor "battery" droneId (pointSeries texts point))
    (hseries : e.series = pointSeries texts point) (hfields : e.fields = point.fields) :
    ∃ value, point.fields = [("remaining_percent", value)] ∧
      e.cells = [batteryCell droneId (batteryId texts point) e.time value] := by
  obtain ⟨hnames, value, hvalue⟩ := battery_series hpoint hfor
  rw [hnames] at hseries
  have hmeasurement : e.measurement = "battery" := congrArg Prod.fst hseries
  have htags : e.tags = [("drone_id", droneId), ("battery_id", batteryId texts point)] :=
    congrArg Prod.snd hseries
  refine ⟨value, hvalue, ?_⟩
  rw [Entry.cells, hfields, hvalue, hmeasurement, htags]
  rfl

theorem le_of_batteryCell {droneId first second : String} {t t' : ℤ} {v v' : Json}
    (h : (batteryCell droneId first t v).rank ≤ (batteryCell droneId second t' v').rank) :
    first ≤ second := by
  by_contra hlt
  have hgreater : List.Lex (· < ·) (batteryCell droneId second t' v').rank
      (batteryCell droneId first t v).rank :=
    (List.Lex.rel (not_le.mp hlt)).append_left _
      ["battery", "remaining_percent", "drone_id", droneId, "battery_id"]
  exact not_le.mpr hgreater h

theorem batteryId_of_series {a b : Point} (h : pointSeries texts a = pointSeries texts b) :
    batteryId texts a = batteryId texts b := by
  have htags : tagTexts texts a = tagTexts texts b := congrArg Prod.snd h
  rw [batteryId, batteryId, htags]

theorem leastBattery_unique {droneId : String} {a b : Point}
    (ha : LeastBattery texts droneId (created texts history) a)
    (hb : LeastBattery texts droneId (created texts history) b) : a = b := by
  have hamem := (mem_of_lastOf ha.last).1
  have hbmem := (mem_of_lastOf hb.last).1
  have hid : batteryId texts a = batteryId texts b :=
    le_antisymm (ha.least b hbmem hb.battery) (hb.least a hamem ha.battery)
  have hseries : pointSeries texts a = pointSeries texts b := by
    rw [(battery_series hamem ha.battery).1, (battery_series hbmem hb.battery).1, hid]
  have hlast := ha.last
  rw [hseries, hb.last] at hlast
  exact (Option.some.inj hlast).symm

section Database

variable {asked : ℤ} (h : Written texts now history arrivals asked)

include h

theorem arrived_created :
    (arrived (performAll texts (new now) history).written arrivals).map Arrived.point =
      created texts history := by
  have hpoints := written_append_buffer texts now history
  rw [h.buffer, List.append_nil] at hpoints
  rw [arrived_points h.requests, hpoints]

theorem entry_created {e : Entry Json}
    (he : e ∈ entries texts (performAll texts (new now) history).written arrivals) :
    ∃ p ∈ created texts history, e.series = pointSeries texts p ∧ e.fields = p.fields := by
  obtain ⟨a, ha, hae⟩ := List.mem_map.mp he
  refine ⟨a.point, ?_, ?_⟩
  · rw [← arrived_created h]
    exact List.mem_map_of_mem ha
  · rw [← hae]
    exact ⟨rfl, rfl⟩

theorem lastOf_entry {passes : String × List (String × String) → Bool} {point : Point}
    (hlast : lastOf texts passes (created texts history) = some point) :
    ∃ e, ((entries texts (performAll texts (new now) history).written arrivals).filter
        fun e => passes e.series).getLast? = some e ∧
      e.series = pointSeries texts point ∧ e.fields = point.fields := by
  rw [lastOf, ← arrived_created h, List.filter_map, List.getLast?_map,
    Option.map_eq_some_iff] at hlast
  obtain ⟨a, ha, hpoint⟩ := hlast
  refine ⟨a.entry texts, ?_, ?_⟩
  · rw [entries, List.filter_map, List.getLast?_map]
    exact Option.map_eq_some_iff.mpr ⟨a, ha, rfl⟩
  · rw [← hpoint]
    exact ⟨rfl, rfl⟩

theorem lastOf_none {passes : String × List (String × String) → Bool}
    (hlast : lastOf texts passes (created texts history) = none) :
    (entries texts (performAll texts (new now) history).written arrivals).filter
      (fun e => passes e.series) = [] := by
  rw [lastOf, List.getLast?_eq_none_iff, List.filter_eq_nil_iff] at hlast
  refine List.filter_eq_nil_iff.mpr fun e he => ?_
  obtain ⟨p, hp, hseries, _⟩ := entry_created h he
  rw [hseries]
  exact hlast p hp

theorem selected_eq (measurement droneId : String) :
    ranged day measurement asked (ofDrone droneId (database texts now history arrivals)) =
      cells ((database texts now history arrivals).filter
        fun e => isFor measurement droneId e.series) := by
  have hsplit : (database texts now history arrivals).filter
      (fun e => isFor measurement droneId e.series) =
      (ofDrone droneId (database texts now history arrivals)).filter
        fun e => e.measurement = measurement := by
    rw [ofDrone, List.filter_filter]
    refine List.filter_congr fun e _ => ?_
    rw [Bool.eq_iff_iff, Bool.and_eq_true, decide_eq_true_iff, decide_eq_true_iff]
    exact decide_eq_true_iff
  rw [hsplit]
  refine cells_filter fun e he c hc => ?_
  obtain ⟨hfrom, huntil⟩ := h.recent e ((record_sublist _).subset (List.mem_filter.mp he).1)
  obtain ⟨field, _, hfield⟩ := Entry.mem_cells.mp hc
  rw [← hfield]
  simp [hfrom, huntil]

theorem series_ordered (series : String × List (String × String)) :
    ((entries texts (performAll texts (new now) history).written arrivals).filter
      fun e => e.series = series).Pairwise fun a b => a.time ≤ b.time := by
  refine ((entries_ordered h.clock h.requests h.order).filter _).imp_of_mem
    fun {a b} ha hb hab => ?_
  have ha : a.series = series := of_decide_eq_true (List.mem_filter.mp ha).2
  have hb : b.series = series := of_decide_eq_true (List.mem_filter.mp hb).2
  exact hab (ha.trans hb.symm)

theorem selected_none {measurement droneId : String}
    (hlast : lastStored texts measurement droneId (created texts history) = none) :
    ranged day measurement asked (ofDrone droneId (database texts now history arrivals)) = [] := by
  have hentries := lastOf_none h hlast
  have hempty : (database texts now history arrivals).filter
      (fun e => isFor measurement droneId e.series) = [] := by
    refine List.filter_eq_nil_iff.mpr fun e he => ?_
    exact List.filter_eq_nil_iff.mp hentries e ((record_sublist _).subset he)
  rw [selected_eq h, hempty]
  rfl

/-- Where a measurement and a drone have one series, a query finds the values of
the last entry. -/
theorem newest_selected {measurement droneId : String} {point : Point}
    (hmeasurement : measurement ≠ "battery")
    (hlast : lastStored texts measurement droneId (created texts history) = some point) :
    ∃ e : Entry Json, e.fields = point.fields ∧
      newest (ranged day measurement asked
        (ofDrone droneId (database texts now history arrivals))) = e.cells := by
  have hmem := mem_of_lastOf hlast
  have hpoint := series_of_isFor hmem.1 hmeasurement hmem.2
  obtain ⟨e, he, hseries, hfields⟩ := lastOf_entry h hlast
  have hsame : ∀ q ∈ entries texts (performAll texts (new now) history).written arrivals,
      isFor measurement droneId q.series = decide (q.series = e.series) := by
    intro q hq
    obtain ⟨p, hp, hqp, _⟩ := entry_created h hq
    rw [hqp, hseries]
    cases hfor : isFor measurement droneId (pointSeries texts p) with
    | true =>
      have hps := series_of_isFor hp hmeasurement hfor
      rw [hps, hpoint]
      exact (decide_eq_true rfl).symm
    | false =>
      refine (decide_eq_false fun heq => ?_).symm
      rw [heq, hmem.2] at hfor
      cases hfor
  rw [List.filter_congr hsame] at he
  obtain ⟨earlier, hrecord, hearlier⟩ := record_last (series_ordered h e.series) he
  have hdatabase : (database texts now history arrivals).filter
      (fun q => isFor measurement droneId q.series) = earlier ++ [e] := by
    rw [← hrecord]
    exact List.filter_congr fun q hq => hsame q ((record_sublist _).subset hq)
  have holder : ∀ q ∈ earlier ++ [e], q.series = e.series ∧
      q.fields.map Prod.fst = e.fields.map Prod.fst := by
    intro q hq
    rw [← hrecord] at hq
    obtain ⟨hq, hqe⟩ := List.mem_filter.mp hq
    have hqe : q.series = e.series := of_decide_eq_true hqe
    obtain ⟨p, hp, hqp, hqf⟩ := entry_created h ((record_sublist _).subset hq)
    refine ⟨hqe, ?_⟩
    rw [hqf, hfields]
    have hpp : pointSeries texts p = pointSeries texts point := by rw [← hqp, hqe, hseries]
    exact fields_of_schema hp hmem.1 (congrArg Prod.fst hpp)
  refine ⟨e, hfields, ?_⟩
  rw [selected_eq h, hdatabase]
  exact newest_cells hearlier (fun q hq => (holder q (List.mem_append_left _ hq)).1)
    fun q hq => (holder q (List.mem_append_left _ hq)).2

theorem last_of_series {measurement droneId : String} {p : Point}
    (hp : p ∈ created texts history) (hfor : isFor measurement droneId (pointSeries texts p)) :
    ∃ last e earlier, lastOf texts (fun series => series = pointSeries texts p)
        (created texts history) = some last ∧
      last ∈ created texts history ∧ pointSeries texts last = pointSeries texts p ∧
      e.series = pointSeries texts last ∧ e.fields = last.fields ∧
      ((database texts now history arrivals).filter
        fun q => isFor measurement droneId q.series).filter (fun q => q.series = e.series) =
          earlier ++ [e] ∧
      ∀ q ∈ earlier, q.time < e.time := by
  cases hlast : lastOf texts (fun series => series = pointSeries texts p)
      (created texts history) with
  | none =>
    rw [lastOf, List.getLast?_eq_none_iff, List.filter_eq_nil_iff] at hlast
    exact absurd (decide_eq_true rfl) (hlast p hp)
  | some last =>
    obtain ⟨hmem, hseries⟩ := mem_of_lastOf hlast
    have hseries : pointSeries texts last = pointSeries texts p := of_decide_eq_true hseries
    obtain ⟨e, he, hes, hfields⟩ := lastOf_entry h hlast
    have hep : e.series = pointSeries texts p := hes.trans hseries
    rw [← hep] at he
    obtain ⟨earlier, hrecord, hearlier⟩ := record_last (series_ordered h e.series) he
    refine ⟨last, e, earlier, rfl, hmem, hseries, hes, hfields, ?_, hearlier⟩
    rw [List.filter_filter, ← hrecord]
    refine List.filter_congr fun q _ => ?_
    cases hq : decide (q.series = e.series) with
    | false => exact Bool.false_and _
    | true =>
      rw [of_decide_eq_true hq, hep, hfor]
      rfl

variable (clock : ℤ → Json)

theorem value_answers (measurement key droneId : String) {field : String} {tags : List String}
    (hschema : schema.lookup measurement = some (tags, [field]))
    (hmeasurement : measurement ≠ "battery") :
    Answers [key] (lastRecord (valueBody key)
        (.ok (lastValues clock measurement asked
          (ofDrone droneId (database texts now history arrivals)))))
      (lastStored texts measurement droneId (created texts history)) := by
  cases hlast : lastStored texts measurement droneId (created texts history) with
  | none =>
    rw [lastValues, selected_none h hlast]
    rfl
  | some point =>
    obtain ⟨e, hfields, hnewest⟩ := newest_selected h hmeasurement hlast
    obtain ⟨cell, hcell, _⟩ := List.map_eq_singleton_iff.mp (names_of_lastStored hschema hlast)
    refine ⟨clock e.time, ?_⟩
    rw [lastValues, hnewest, Entry.cells, hfields, hcell, List.map_singleton, tablesBy_singleton]
    rfl

theorem position_answers (droneId : String) :
    Answers ["latitude", "longitude", "altitude"]
      (TelemetryRoutes.lastPosition (.ok (lastRows clock asked
        (ofDrone droneId (database texts now history arrivals)))))
      (lastStored texts "position" droneId (created texts history)) := by
  cases hlast : lastStored texts "position" droneId (created texts history) with
  | none =>
    rw [lastRows, selected_none h hlast]
    rfl
  | some point =>
    obtain ⟨e, hfields, hnewest⟩ := newest_selected h (by decide) hlast
    have hschema : schema.lookup "position" =
        some (["drone_id"], ["latitude", "longitude", "altitude"]) := rfl
    have hnames := names_of_lastStored hschema hlast
    obtain ⟨lat, rest, hpoint, hlat, hrest⟩ := List.map_eq_cons_iff.mp hnames
    obtain ⟨lon, rest, hrest', hlon, hlast⟩ := List.map_eq_cons_iff.mp hrest
    obtain ⟨alt, halt, haltname⟩ := List.map_eq_singleton_iff.mp hlast
    rw [hrest', halt] at hpoint
    have hne : e.fields ≠ [] := by
      rw [hfields, hpoint]
      exact List.cons_ne_nil _ _
    refine ⟨clock e.time, ?_⟩
    rw [lastRows, hnewest, pivot_cells hne, hfields, hpoint]
    simp [TelemetryRoutes.lastPosition, lastRecord, rowRecord, positionBody, FluxRecord.get, hlat,
      hlon, haltname, Except.map, List.lookup]

theorem battery_newest {droneId : String} {q : Point} (hq : q ∈ created texts history)
    (hfor : isFor "battery" droneId (pointSeries texts q)) :
    ∃ time value, batteryCell droneId (batteryId texts q) time value ∈
      newest (ranged day "battery" asked
        (ofDrone droneId (database texts now history arrivals))) := by
  obtain ⟨last, e, earlier, _, hmem, hseries, hes, hfields, hrecord, hearlier⟩ :=
    last_of_series h hq hfor
  have hlastfor : isFor "battery" droneId (pointSeries texts last) := by rw [hseries, hfor]
  obtain ⟨value, _, hcells⟩ := battery_cells hmem hlastfor hes hfields
  refine ⟨e.time, value, ?_⟩
  rw [selected_eq h, ← batteryId_of_series hseries]
  refine cells_newest hrecord hearlier ?_
  rw [hcells]
  exact List.mem_cons_self

theorem last_of_newest {droneId : String} {c : Cell Json}
    (hc : c ∈ newest (ranged day "battery" asked
      (ofDrone droneId (database texts now history arrivals)))) :
    ∃ last ∈ created texts history, isFor "battery" droneId (pointSeries texts last) ∧
      lastOf texts (fun series => series = pointSeries texts last) (created texts history) =
        some last ∧
      ∃ time value, last.fields = [("remaining_percent", value)] ∧
        c = batteryCell droneId (batteryId texts last) time value := by
  rw [selected_eq h] at hc
  obtain ⟨x, hx, hcx⟩ := List.mem_flatMap.mp (mem_newest.mp hc).1
  obtain ⟨hxrecord, hxfor⟩ := List.mem_filter.mp hx
  obtain ⟨p, hp, hxp, hxfields⟩ := entry_created h ((record_sublist _).subset hxrecord)
  rw [hxp] at hxfor
  obtain ⟨last, e, earlier, hlast, hmem, hseries, hes, hfields, hrecord, hearlier⟩ :=
    last_of_series h hp hxfor
  have hfor : isFor "battery" droneId (pointSeries texts last) := by rw [hseries, hxfor]
  have hxe : x = e := by
    refine newest_entry hrecord hearlier hx (hxp.trans (hes.trans hseries).symm) ?_ hcx hc
    rw [hxfields, hfields]
    exact fields_of_schema hp hmem (congrArg Prod.fst hseries.symm)
  obtain ⟨value, hvalue, hcells⟩ := battery_cells hmem hfor hes hfields
  rw [hxe, hcells, List.mem_singleton] at hcx
  refine ⟨last, hmem, hfor, ?_, e.time, value, hvalue, hcx⟩
  rw [hseries]
  exact hlast

/-- `last_battery` answers with the last point of the battery with the least id. -/
theorem battery_answer {droneId : String} {point : Point}
    (hlast : lastStored texts "battery" droneId (created texts history) = some point) :
    ∃ least time value, LeastBattery texts droneId (created texts history) least ∧
      least.fields = [("remaining_percent", value)] ∧
      TelemetryRoutes.lastBattery (.ok (lastValues clock "battery" asked
        (ofDrone droneId (database texts now history arrivals)))) =
          .ok (.obj [("time", time), ("percentage", value)]) := by
  cases hhead : (tablesBy Cell.rank (newest (ranged day "battery" asked
      (ofDrone droneId (database texts now history arrivals))))).flatten.head? with
  | none =>
    obtain ⟨hmem, hfor⟩ := mem_of_lastOf hlast
    obtain ⟨time, value, hcell⟩ := battery_newest h hmem hfor
    rw [tablesBy_eq_nil hhead] at hcell
    exact absurd hcell List.not_mem_nil
  | some c =>
    obtain ⟨hc, hrank⟩ := tablesBy_head hhead
    obtain ⟨least, _, hfor, hleast, time, value, hvalue, hcell⟩ := last_of_newest h hc
    refine ⟨least, clock time, value, ⟨hfor, hleast, fun q hq hqfor => ?_⟩, hvalue, ?_⟩
    · obtain ⟨_, _, hother⟩ := battery_newest h hq hqfor
      have hle := hrank _ hother
      rw [hcell] at hle
      exact le_of_batteryCell hle
    · rw [lastValues, TelemetryRoutes.lastBattery, lastRecord, Except.map, ← List.map_flatten,
        List.head?_map, hhead, hcell]
      rfl

theorem battery_answers_iff (droneId : String) :
    Answers ["percentage"]
        (TelemetryRoutes.lastBattery (.ok (lastValues clock "battery" asked
          (ofDrone droneId (database texts now history arrivals)))))
        (lastStored texts "battery" droneId (created texts history)) ↔
      BatteryAgrees texts droneId (created texts history) := by
  unfold BatteryAgrees
  cases hlast : lastStored texts "battery" droneId (created texts history) with
  | none =>
    refine iff_of_true ?_ fun _ hnone => absurd hnone (by simp)
    rw [lastValues, selected_none h hlast]
    rfl
  | some point =>
    obtain ⟨least, time, value, hleast, hvalue, hanswer⟩ := battery_answer h clock hlast
    obtain ⟨hmem, hfor⟩ := mem_of_lastOf hlast
    obtain ⟨_, stored, hstored⟩ := battery_series hmem hfor
    rw [hanswer]
    constructor
    · rintro ⟨time', heq⟩ newest hnewest other hother
      rw [leastBattery_unique hother hleast, ← Option.some.inj hnewest, hvalue, hstored]
      rw [hstored] at heq
      have hsame : value = stored := by
        simp at heq
        exact heq.2
      rw [hsame]
    · intro hagrees
      refine ⟨time, ?_⟩
      rw [← hagrees point rfl least hleast, hvalue]
      rfl

end Database

/-- All five methods answer for a drone with what was stored last for it, or
with None if there is nothing, exactly when the newest value of its battery with
the least id is the newest of all its batteries. The id is one that stands for itself
in the texts of the queries. -/
theorem last_telemetry_iff (texts : Texts) (clock : ℤ → Json) (now asked : ℤ)
    (history : List (Operation × Call)) (arrivals : List ℤ)
    (hwritten : Written texts now history arrivals asked) (bucket droneId : String)
    (hplain : Plain droneId.toList) (query : String → QueryResult)
    (hflux : Evaluates query clock asked (database texts now history arrivals) bucket droneId) :
    AllLast texts query bucket droneId (created texts history) ↔
      BatteryAgrees texts droneId (created texts history) := by
  have hposition := position_answers hwritten clock droneId
  have hflightMode := value_answers hwritten clock "flight_mode" "mode" droneId rfl (by decide)
  have harmed := value_answers hwritten clock "armed" "armed" droneId rfl (by decide)
  have hinAir := value_answers hwritten clock "in_air" "in_air" droneId rfl (by decide)
  rw [← battery_answers_iff hwritten clock droneId, ← hflux.battery.plain hplain]
  rw [← hflux.position.plain hplain] at hposition
  rw [← hflux.flightMode.plain hplain] at hflightMode
  rw [← hflux.armed.plain hplain] at harmed
  rw [← hflux.inAir.plain hplain] at hinAir
  exact ⟨AllLast.battery, fun hbattery => ⟨hposition, hbattery, hflightMode, harmed, hinAir⟩⟩

def batteryOne : Point := batteryPoint noTexts (.int 1) (.int 90) (.str "default") 1

def batteryTwo : Point := batteryPoint noTexts (.int 2) (.int 50) (.str "default") 2

/-- Two batteries report, written together. -/
def twoBatteries : List (Operation × Call) :=
  [(.storeBattery (.int 1) (.int 90) (.str "default"), callAt 1),
    (.storeBattery (.int 2) (.int 50) (.str "default"), callAt 2), (.flush, callAt 3)]

def oneBattery : List (Operation × Call) :=
  [(.storeBattery (.int 1) (.int 90) (.str "default"), callAt 1), (.flush, callAt 2)]

def lastTexts : List String :=
  [QueryText.lastPosition, QueryText.lastBattery, QueryText.lastFlightMode, QueryText.lastArmed,
    QueryText.lastInAir].map fun t => (t "drone_telemetry").text "default"

def lastTables (clock : ℤ → Json) (asked : ℤ) (own : List (Entry Json)) : ℕ → List (List FluxRecord)
  | 0 => lastRows clock asked own
  | 1 => lastValues clock "battery" asked own
  | 2 => lastValues clock "flight_mode" asked own
  | 3 => lastValues clock "armed" asked own
  | _ => lastValues clock "in_air" asked own

/-- A database that answers these five texts. -/
def fluxAt (clock : ℤ → Json) (asked : ℤ) (db : List (Entry Json)) (text : String) : QueryResult :=
  .ok (lastTables clock asked (ofDrone "default" db) (lastTexts.idxOf text))

theorem plain_default : Plain "default".toList := by
  simp [StringLiteral.plain_cons, StringLiteral.plain_nil]

theorem fluxAt_evaluates (clock : ℤ → Json) (asked : ℤ) (db : List (Entry Json)) :
    Evaluates (fluxAt clock asked db) clock asked db "drone_telemetry" "default" := by
  have hindex : ∀ i : Fin lastTexts.length, lastTexts.idxOf (lastTexts.get i) = i := by
    decide +kernel
  have htext : ∀ (i : ℕ) (hi : i < 5) (t : Template) (own : List (Entry Json)),
      t.text "default" = lastTexts.get ⟨i, hi⟩ → t.records "default" db = some own →
        fluxAt clock asked db (t.text "default") = .ok (lastTables clock asked own i) := by
    intro i hi t own ht hown
    rw [records_plain plain_default, Option.some.injEq] at hown
    rw [fluxAt, ht, hindex, ofDrone, hown]
  exact ⟨fun own => htext 0 (by decide) _ own rfl, fun own => htext 1 (by decide) _ own rfl,
    fun own => htext 2 (by decide) _ own rfl, fun own => htext 3 (by decide) _ own rfl,
    fun own => htext 4 (by decide) _ own rfl⟩

theorem last_telemetry_one_battery :
    AllLast noTexts (fluxAt Json.int 100 (database noTexts 0 oneBattery [10])) "drone_telemetry"
      "default" (created noTexts oneBattery) := by
  have hwritten : (performAll noTexts (new 0) oneBattery).written = [[batteryOne]] := rfl
  have h : Written noTexts 0 oneBattery [10] 100 := by
    refine ⟨by simp [Stamped, oneBattery, callAt], rfl, by decide, rfl, ?_⟩
    simp [hwritten, entries, arrived, Arrived.entry, batteryOne, batteryPoint, day]
  refine (last_telemetry_iff noTexts Json.int 0 100 oneBattery [10] h "drone_telemetry" "default"
    plain_default _ (fluxAt_evaluates Json.int 100 _)).mpr ?_
  intro newest hnewest least hleast
  have hnewest : newest = batteryOne := (Option.some.inj hnewest).symm
  have hmem := (mem_of_lastOf hleast.last).1
  have hleast : least = batteryOne := List.mem_singleton.mp hmem
  rw [hnewest, hleast]

/-- The second battery has reported last, and the answer is what the first has
reported. -/
theorem older_battery_returned :
    Written noTexts 0 twoBatteries [10] 100 ∧
    Evaluates (fluxAt Json.int 100 (database noTexts 0 twoBatteries [10])) Json.int 100
      (database noTexts 0 twoBatteries [10]) "drone_telemetry" "default" ∧
    lastStored noTexts "battery" "default" (created noTexts twoBatteries) = some batteryTwo ∧
    (∃ time, lastBattery (fluxAt Json.int 100 (database noTexts 0 twoBatteries [10]))
      "drone_telemetry" "default" = .ok (.obj [("time", time), ("percentage", .int 90)])) ∧
    ¬ AllLast noTexts (fluxAt Json.int 100 (database noTexts 0 twoBatteries [10])) "drone_telemetry"
      "default" (created noTexts twoBatteries) := by
  have hwritten : (performAll noTexts (new 0) twoBatteries).written =
      [[batteryOne, batteryTwo]] := rfl
  have hcreated : created noTexts twoBatteries = [batteryOne, batteryTwo] := rfl
  have h : Written noTexts 0 twoBatteries [10] 100 := by
    refine ⟨by simp [Stamped, twoBatteries, callAt], rfl, by decide, rfl, ?_⟩
    simp [hwritten, entries, arrived, Arrived.entry, batteryOne, batteryTwo, batteryPoint, day]
  have hlast : lastStored noTexts "battery" "default" (created noTexts twoBatteries) =
      some batteryTwo := rfl
  have hleast : LeastBattery noTexts "default" (created noTexts twoBatteries) batteryOne := by
    refine ⟨rfl, rfl, ?_⟩
    rw [hcreated]
    intro p hp _
    rcases List.mem_cons.mp hp with hp | hp
    · rw [hp]
    · rw [List.mem_singleton.mp hp]
      decide
  have hflux := fluxAt_evaluates Json.int 100 (database noTexts 0 twoBatteries [10])
  have hquery := hflux.battery.plain plain_default
  refine ⟨h, hflux, hlast, ?_, fun hall => ?_⟩
  · obtain ⟨least, time, value, hother, hvalue, hanswer⟩ := battery_answer h Json.int hlast
    rw [leastBattery_unique hother hleast] at hvalue
    have hvalue : value = .int 90 := by
      simp [batteryOne, batteryPoint] at hvalue
      exact hvalue.symm
    rw [hvalue] at hanswer
    exact ⟨time, by rw [lastBattery, hquery, hanswer]⟩
  · have hanswers := hall.battery
    rw [lastBattery, hquery] at hanswers
    have hagrees := (battery_answers_iff h Json.int "default").mp hanswers
    have hfields := hagrees batteryTwo hlast batteryOne hleast
    simp [batteryOne, batteryTwo, batteryPoint] at hfields

end Cherum.LastTelemetry
