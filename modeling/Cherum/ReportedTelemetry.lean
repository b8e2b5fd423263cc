import Cherum.ServedReports
import Cherum.ShownControls

/-! Telemetry from the drone's events to the page: the answer of `/last/telemetry`
once everything posted is in the database, what `response.json()` makes of it,
and what the page then holds and shows. -/

namespace Cherum.ReportedTelemetry
open ControlPage FixedDecimal HttpMessages LastTelemetry PythonFloat PythonJson RecordedSeries
open ServedReports StoreRuns TelemetryEvents TelemetryRoutes TelemetryStore TelemetryWire TimeSeries
open TelemetryPage (Answer BatteryRow Position PositionRow updateData)

def queries (query : String → QueryResult) (bucket droneId : String) : LastResults where
  position := query ((QueryText.lastPosition bucket).text droneId)
  battery := query ((QueryText.lastBattery bucket).text droneId)
  flightMode := query ((QueryText.lastFlightMode bucket).text droneId)
  armed := query ((QueryText.lastArmed bucket).text droneId)
  inAir := query ((QueryText.lastInAir bucket).text droneId)

mutual

/-- No number in the value is NaN or infinite; JavaScript parses no text that has
one of them. -/
def carried : Json → Bool
  | .float (.finite _ _) => true
  | .float _ => false
  | .arr items => carriedItems items
  | .obj fields => carriedFields fields
  | _ => true

def carriedItems : List Json → Bool
  | [] => true
  | item :: items => carried item && carriedItems items

def carriedFields : List (String × Json) → Bool
  | [] => true
  | (_, value) :: fields => carried value && carriedFields fields

end

@[simp] theorem carried_obj (fields : List (String × Json)) :
    carried (.obj fields) = carriedFields fields := by rw [carried]

@[simp] theorem carried_str (text : String) : carried (.str text) = true := by
  simp [carried]

@[simp] theorem carriedFields_nil : carriedFields [] = true := by rw [carriedFields]

@[simp] theorem carriedFields_cons (key : String) (value : Json) (fields : List (String × Json)) :
    carriedFields ((key, value) :: fields) = (carried value && carriedFields fields) := by
  rw [carriedFields]

/-- `value.key`, with null for undefined. -/
def member (key : String) (value : Json) : Json := (field? key value).getD .null

/-- The value where it is truthy, for an object or null. -/
def present : Json → Option Json
  | .null => none
  | value => some value

def number : Json → Option ℚ
  | .int n => some n
  | .float x => value x
  | _ => none

def integer : Json → Option ℤ
  | .int n => some n
  | _ => none

def string : Json → Option String
  | .str text => some text
  | _ => none

def boolean : Json → Option Bool
  | .bool b => some b
  | _ => none

def positionRow (timeOf : Json → ℤ) (row : Json) : PositionRow :=
  ⟨timeOf (member "time" row), number (member "latitude" row), number (member "longitude" row),
    number (member "altitude" row)⟩

def batteryRow (row : Json) : BatteryRow :=
  ⟨number (member "percentage" row), integer (member "id" row)⟩

/-- What the page reads of the answer; it does not read the times. -/
def answerOf (timeOf : Json → ℤ) (body : Json) : Answer where
  position := (present (member "position" body)).map (positionRow timeOf)
  battery := (present (member "battery" body)).map batteryRow
  flightMode := (present (member "flight_mode" body)).bind fun row => string (member "mode" row)
  armed := (present (member "armed" body)).bind fun row => boolean (member "armed" row)
  inAir := (present (member "in_air" body)).bind fun row => boolean (member "in_air" row)

/-- `await response.json()`, `none` where it throws. -/
def readAnswer (timeOf : Json → ℤ) (response : Response) : Option Answer :=
  match response.body with
  | .json body => if carried body then some (answerOf timeOf body) else none
  | _ => none

abbrev Fix := PyFloat × PyFloat × PyFloat

def fix? : Event → Option Fix
  | .position latitude longitude altitude => some (latitude, longitude, altitude)
  | _ => none

def heldPosition (texts : Texts) (fix : Fix) : Position :=
  ⟨value (readBack texts fix.1), value (readBack texts fix.2.1), value (readBack texts fix.2.2)⟩

def mode? : Event → Option String
  | .flightMode mode => some mode
  | _ => none

def armed? : Event → Option Bool
  | .armed armed => some armed
  | _ => none

def inAir? : Event → Option Bool
  | .inAir inAir => some inAir
  | _ => none

def battery? : Event → Option (UInt32 × PyFloat)
  | .battery id remainingPercent => some (id, remainingPercent)
  | _ => none

def idText (id : UInt32) : String := String.ofList (intText id.toNat)

/-- The last value that the battery whose id is first as a text has reported. -/
def FirstBattery (batteries : List (UInt32 × PyFloat)) (id : UInt32) (percent : PyFloat) : Prop :=
  (batteries.filter fun q => idText q.1 = idText id).getLast? = some (id, percent) ∧
    ∀ q ∈ batteries, idText id ≤ idText q.1

/-- Six decimals that do not stand for a negative zero, nor for so large a number
that its double has other decimals. -/
def Readable (x : PyFloat) : Prop :=
  ∃ negative magnitude, x = .finite negative magnitude ∧ rounded 6 magnitude < (10 ^ 9 : ℕ) ∧
    (negative = true → rounded 6 magnitude ≠ 0)

/-- Below `10 ^ 9` a double is nearer to its six decimals than any other six are. -/
theorem roundedBinary_millionths {x : ℚ≥0} (h : x < 10 ^ 9) :
    |(roundedBinary x : ℚ) - x| < 1 / 4000000 := by
  have hplace : lastPlace x ≤ -23 := by
    have hbound : x < 2 ^ (29 + 1) := h.trans (by norm_num)
    have hlast := lastPlace_le hbound
    omega
  calc |(roundedBinary x : ℚ) - x| ≤ 2 ^ lastPlace x / 2 := roundedBinary_near x
    _ ≤ 2 ^ (-23 : ℤ) / 2 := by gcongr; norm_num
    _ < 1 / 4000000 := by norm_num

theorem nearestDouble_millionths (negative : Bool) {x : ℚ≥0} (h : x < 10 ^ 9) :
    nearestDouble negative x = .finite negative (roundedBinary x) := by
  have hbound : ((10 ^ 9 : ℕ) : ℚ≥0) < overflowBound := Nat.cast_lt.mpr (by decide +kernel)
  have hfinite : x < overflowBound := by
    refine h.trans ?_
    exact_mod_cast hbound
  rw [nearestDouble, if_pos hfinite]

theorem toFixed_readBack {texts : Texts} {x : PyFloat} (n : Numbers)
    (hread : texts.read = nearestDouble) (h : Readable x) :
    toFixed n 6 (value (readBack texts x)) = format6f x := by
  obtain ⟨negative, magnitude, hx, hbelow, hzero⟩ := h
  have hsmall : rounded 6 magnitude < 10 ^ 9 := by exact_mod_cast hbelow
  have hdouble := nearestDouble_millionths negative hsmall
  obtain ⟨hlower, hupper⟩ := abs_lt.mp (roundedBinary_millionths hsmall)
  have hunits : ((rounded 6 magnitude : ℚ≥0) : ℚ) * 10 ^ 6 =
      (roundHalfEven (magnitude * 10 ^ 6) : ℚ) := by
    rw [rounded]
    push_cast
    field_simp
  have hsmall' : ((rounded 6 magnitude : ℚ≥0) : ℚ) < 10 ^ 9 := by exact_mod_cast hsmall
  have hnonneg : (0 : ℚ) ≤ (roundedBinary (rounded 6 magnitude) : ℚ≥0) := NNRat.coe_nonneg _
  have hround : roundHalfUp ((roundedBinary (rounded 6 magnitude) : ℚ≥0) * 10 ^ 6) =
      roundHalfEven (magnitude * 10 ^ 6) := by
    rw [roundHalfUp, Nat.floor_eq_iff (by positivity), ← hunits]
    constructor <;> linarith
  have hlimit : ¬ (10 : ℚ) ^ 21 ≤ (roundedBinary (rounded 6 magnitude) : ℚ≥0) := by
    rw [not_le]
    linarith
  rw [hx, readBack, hread, hdouble]
  cases negative with
  | false =>
    simp only [value, toFixed, abs_of_nonneg hnonneg, hlimit, not_lt.mpr hnonneg, if_false, hround,
      format6f, signText, fixedText]
  | true =>
    -- the least of six decimals is far above the error
    have hleast : (1 : ℚ) / 10 ^ 6 ≤ (rounded 6 magnitude : ℚ≥0) := by
      have hpos : 0 < roundHalfEven (magnitude * 10 ^ 6) := by
        refine Nat.pos_of_ne_zero fun hnone => hzero rfl ?_
        rw [rounded, hnone, Nat.cast_zero, zero_div]
      have hone : (1 : ℚ) ≤ roundHalfEven (magnitude * 10 ^ 6) := by exact_mod_cast hpos
      rw [← hunits] at hone
      rw [div_le_iff₀ (by positivity)]
      exact hone
    have hneg : -((roundedBinary (rounded 6 magnitude) : ℚ≥0) : ℚ) < 0 := by linarith
    simp only [value, toFixed, abs_neg, abs_of_nonneg hnonneg, hlimit, hneg, if_false, if_true,
      hround, format6f, signText, fixedText]

theorem getLast?_filterMap_eq {α β : Type*} {f : α → Option β} {p : α → Bool}
    (h : ∀ x, (f x).isSome = p x) (l : List α) :
    (l.filterMap f).getLast? = (l.filter p).getLast?.bind f := by
  induction l using List.reverseRecOn with
  | nil => rfl
  | append_singleton l x ih =>
    rw [List.filterMap_append, List.filter_append]
    cases hx : f x with
    | none =>
      have hpx : p x = false := by rw [← h x, hx]; rfl
      simp [hx, hpx, ih]
    | some y =>
      have hpx : p x = true := by rw [← h x, hx]; rfl
      simp [hx, hpx]

theorem carried_float {x : PyFloat} (h : value x ≠ none) : carried (.float x) = true := by
  cases x with
  | finite negative magnitude => rfl
  | _ => exact absurd rfl h

theorem lastRecord_time {α : Type} {toRecord : α → FluxRecord} {body : FluxRecord → Json}
    {clock : ℤ → String} {tables : List (List α)} {time : Json} {fields : List (String × Json)}
    (hclock : ∀ a, ∃ t, (toRecord a).time = .str (clock t))
    (hbody : ∀ r, ∃ rest, body r = .obj (("time", r.time) :: rest))
    (h : lastRecord body (.ok (tables.map (List.map toRecord))) =
      .ok (.obj (("time", time) :: fields))) : ∃ t, time = .str (clock t) := by
  simp only [lastRecord, Except.map, ← List.map_flatten, List.head?_map] at h
  cases hhead : tables.flatten.head? with
  | none =>
    rw [hhead] at h
    cases h
  | some a =>
    obtain ⟨t, ht⟩ := hclock a
    obtain ⟨rest, hrest⟩ := hbody (toRecord a)
    rw [hhead] at h
    simp only [Option.map_some, Option.getD_some, hrest, Except.ok.injEq, Json.obj.injEq,
      List.cons.injEq, Prod.mk.injEq, true_and] at h
    exact ⟨t, by rw [← h.1, ht]⟩

section Answers

variable {texts : Texts} {now asked : ℤ} {served : List Served} {arrivals : List ℤ}

def ofKind {γ : Type*} (f : Event → Option γ) (served : List Served) : List γ :=
  (reports served).filterMap fun r => f r.1

theorem ofKind_last {γ : Type*} {m : String} {f : Event → Option γ}
    (hf : ∀ e, (f e).isSome = decide (measurement e = m)) :
    (ofKind f served).getLast? =
      ((reports served).filter fun r => measurement r.1 = m).getLast?.bind fun r => f r.1 := by
  have hreport : ∀ r : Event × Call, (f r.1).isSome = decide (measurement r.1 = m) :=
    fun r => hf r.1
  exact getLast?_filterMap_eq hreport _

variable (h : Written texts now (served.flatMap (Served.calls texts)) arrivals asked)
  (clock : ℤ → String)

include h

theorem value_read {γ : Type*} (m key : String) {field : String} {tags : List String}
    {read : Json → Option γ} {f : Event → Option γ} (hschema : schema.lookup m = some (tags, [field]))
    (hm : m ≠ "battery") (hkey : key ≠ "time")
    (hf : ∀ e, (f e).isSome = decide (measurement e = m))
    (hread : ∀ e stamp c, f e = some c →
      ∃ v, (recorded (readBack texts) stamp e).fields = [(field, v)] ∧ read v = some c ∧
        carried v = true) :
    ∃ body, lastRecord (valueBody key) (.ok (lastValues (fun t => .str (clock t)) m asked
        (ofDrone "default" (database texts now (served.flatMap (Served.calls texts)) arrivals)))) =
          .ok body ∧
      carried body = true ∧
      (present body).bind (fun row => read (member key row)) = (ofKind f served).getLast? := by
  have hanswer : Answers [key] (lastRecord (valueBody key) (.ok (lastValues
      (fun t => .str (clock t)) m asked
      (ofDrone "default" (database texts now (served.flatMap (Served.calls texts)) arrivals))))) _ :=
    value_answers h _ m key "default" hschema hm
  rw [lastStored_reports] at hanswer
  rw [ofKind_last hf]
  cases hlast : ((reports served).filter fun r => measurement r.1 = m).getLast? with
  | none =>
    rw [hlast] at hanswer
    exact ⟨_, hanswer, rfl, rfl⟩
  | some r =>
    have hkind : (f r.1).isSome = true := by
      rw [hf]
      exact (List.mem_filter.mp (List.mem_of_getLast? hlast)).2
    obtain ⟨c, hc⟩ := Option.isSome_iff_exists.mp hkind
    obtain ⟨v, hfields, hv, hcarried⟩ := hread r.1 r.2.stamp c hc
    rw [hlast, Option.map_some] at hanswer
    obtain ⟨time, hanswer⟩ := hanswer
    obtain ⟨t, ht⟩ := lastRecord_time (fun c => ⟨_, rfl⟩) (fun r => ⟨_, rfl⟩) hanswer
    rw [hfields] at hanswer
    refine ⟨_, hanswer, ?_, ?_⟩
    · simp [ht, hcarried]
    · have hmember : member key (.obj (("time", time) :: [key].zip [v])) = v := by
        simp [member, field?, List.lookup_cons, beq_eq_false_iff_ne.mpr hkey]
      simp only [present, List.map_singleton, Option.bind_some, hc]
      rw [hmember, hv]

theorem position_read (timeOf : Json → ℤ)
    (hfinite : ∀ r ∈ reports served, ∀ x ∈ coordinates r.1, value (readBack texts x) ≠ none) :
    ∃ body, TelemetryRoutes.lastPosition (.ok (lastRows (fun t => .str (clock t)) asked
        (ofDrone "default" (database texts now (served.flatMap (Served.calls texts)) arrivals)))) =
          .ok body ∧
      carried body = true ∧
      ((present body).map (positionRow timeOf)).map PositionRow.position =
        (ofKind fix? served).getLast?.map (heldPosition texts) := by
  have hanswer := position_answers h (fun t => .str (clock t)) "default"
  have hkind : ∀ e, (fix? e).isSome = decide (measurement e = "position") := by
    intro e
    cases e <;> rfl
  rw [lastStored_reports] at hanswer
  rw [ofKind_last hkind]
  cases hlast : ((reports served).filter fun r => measurement r.1 = "position").getLast? with
  | none =>
    rw [hlast] at hanswer
    exact ⟨_, hanswer, rfl, rfl⟩
  | some r =>
    obtain ⟨e, call⟩ := r
    obtain ⟨hmem, hposition⟩ := List.mem_filter.mp (List.mem_of_getLast? hlast)
    cases e with
    | position latitude longitude altitude =>
      rw [hlast, Option.map_some] at hanswer
      obtain ⟨time, hanswer⟩ := hanswer
      obtain ⟨t, ht⟩ := lastRecord_time (fun c => ⟨_, rfl⟩) (fun r => ⟨_, rfl⟩) hanswer
      refine ⟨_, hanswer, ?_, rfl⟩
      have hcarried : ∀ x ∈ coordinates (.position latitude longitude altitude),
          carried (.float (readBack texts x)) = true := fun x hx => carried_float (hfinite _ hmem x hx)
      simp only [coordinates, List.forall_mem_cons] at hcarried
      simp [recorded, ht, hcarried]
    | _ => simp [measurement] at hposition

omit h in
theorem sameBattery (stamp stamp' : ℤ) (id : UInt32) (percent : PyFloat) (e : Event) :
    ((battery? e).filter fun q => idText q.1 = idText id).isSome =
      decide (pointSeries texts (recorded (readBack texts) stamp e) =
        pointSeries texts (recorded (readBack texts) stamp' (.battery id percent))) := by
  rw [Bool.eq_iff_iff, decide_eq_true_eq]
  cases e with
  | battery id' percent' =>
    have hseries : pointSeries texts (recorded (readBack texts) stamp (.battery id' percent')) =
        pointSeries texts (recorded (readBack texts) stamp' (.battery id percent)) ↔
          idText id' = idText id := by
      simp [pointSeries, recorded, tagTexts, idText, intText, natText, pyStr]
    rw [hseries, battery?, Option.isSome_filter, Option.any_some]
    exact decide_eq_true_iff
  | _ => simp [battery?, pointSeries, recorded]

omit h in
theorem firstBattery_of_least {least : Point}
    (hleast : LeastBattery texts "default" (created texts (served.flatMap (Served.calls texts))) least) :
    ∃ id percent, least.fields = [("remaining_percent", .float percent)] ∧
      (id, percent) ∈ ofKind battery? served ∧
      FirstBattery (ofKind battery? served) id percent := by
  have hlast := hleast.last
  rw [created_calls, lastOf, List.filter_map, List.getLast?_map, Option.map_eq_some_iff] at hlast
  obtain ⟨⟨e, call⟩, hlast, hrecorded⟩ := hlast
  have hbattery := hleast.battery
  rw [← hrecorded, isFor_recorded, decide_eq_true_eq] at hbattery
  cases e with
  | battery id percent =>
    have hmem : (id, percent) ∈ ofKind battery? served :=
      List.mem_filterMap.mpr ⟨_, (List.mem_filter.mp (List.mem_of_getLast? hlast)).1, rfl⟩
    refine ⟨id, percent, by rw [← hrecorded]; rfl, hmem, ?_, fun q hq => ?_⟩
    · have hsame : ∀ r : Event × Call, ((battery? r.1).filter fun q => idText q.1 = idText id).isSome =
          decide (pointSeries texts (recorded (readBack texts) r.2.stamp r.1) =
            pointSeries texts least) := by
        intro r
        rw [← hrecorded]
        exact sameBattery _ _ id percent r.1
      rw [ofKind, List.filter_filterMap, getLast?_filterMap_eq hsame]
      refine (congrArg (Option.bind · _) hlast).trans ?_
      simp [battery?]
    · obtain ⟨⟨e', call'⟩, hr, hq⟩ := List.mem_filterMap.mp hq
      cases e' with
      | battery id' percent' =>
        have hpoint : recorded (readBack texts) call'.stamp (.battery id' percent') ∈
            created texts (served.flatMap (Served.calls texts)) := by
          rw [created_calls]
          exact List.mem_map.mpr ⟨_, hr, rfl⟩
        have hle := hleast.least _ hpoint ((isFor_recorded "battery" _ _).trans rfl)
        rw [← hrecorded] at hle
        rw [← Option.some.inj hq]
        exact hle
      | _ => cases hq
  | _ => simp [measurement] at hbattery

theorem battery_read (hpercent : ∀ q ∈ ofKind battery? served, value q.2 ≠ none) :
    ∃ body, TelemetryRoutes.lastBattery (.ok (lastValues (fun t => .str (clock t)) "battery" asked
        (ofDrone "default" (database texts now (served.flatMap (Served.calls texts)) arrivals)))) =
          .ok body ∧
      carried body = true ∧
      (ofKind battery? served = [] ∧ present body = none ∨
        ∃ id percent, FirstBattery (ofKind battery? served) id percent ∧
          (present body).map batteryRow = some ⟨value percent, none⟩) := by
  have hkind : ∀ e, (battery? e).isSome = decide (measurement e = "battery") := by
    intro e
    cases e <;> rfl
  have hlast : (ofKind battery? served).getLast? = _ := ofKind_last hkind
  have hstored : lastStored texts "battery" "default"
      (created texts (served.flatMap (Served.calls texts))) = _ := lastStored_reports "battery"
  cases hreport : ((reports served).filter fun r => measurement r.1 = "battery").getLast? with
  | none =>
    rw [hreport] at hlast hstored
    refine ⟨.null, ?_, rfl, .inl ⟨List.getLast?_eq_none_iff.mp hlast, rfl⟩⟩
    rw [lastValues, selected_none h hstored]
    rfl
  | some r =>
    rw [hreport, Option.map_some] at hstored
    obtain ⟨least, time, v, hleast, hfields, hanswer⟩ :=
      battery_answer h (fun t => .str (clock t)) hstored
    obtain ⟨t, ht⟩ := lastRecord_time (fun c => ⟨_, rfl⟩) (fun r => ⟨_, rfl⟩) hanswer
    obtain ⟨id, percent, hpercentage, hmem, hfirst⟩ := firstBattery_of_least hleast
    rw [hfields, List.cons.injEq, Prod.mk.injEq] at hpercentage
    refine ⟨_, hanswer, ?_, .inr ⟨id, percent, hfirst, ?_⟩⟩
    · simp [ht, hpercentage.1.2, carried_float (hpercent _ hmem)]
    · rw [hpercentage.1.2]
      rfl

end Answers

/-- The page after an update, in terms of what was reported: of each kind the
last event, of the batteries that of the first one, and what the page had before
where nothing was reported. -/
structure AsReported (texts : Texts) (served : List Served) (before after : DroneControl) :
    Prop where
  position : after.page.telemetry.position =
    ((ofKind fix? served).getLast?.map (heldPosition texts)).or before.page.telemetry.position
  battery : ofKind battery? served = [] ∧
      after.page.telemetry.battery = before.page.telemetry.battery ∨
    ∃ id percent, FirstBattery (ofKind battery? served) id percent ∧
      after.page.telemetry.battery = some ⟨value percent, none⟩
  flightMode : after.page.telemetry.flightMode =
    (ofKind mode? served).getLast?.or before.page.telemetry.flightMode
  armed : after.page.telemetry.armed =
    (ofKind armed? served).getLast?.getD before.page.telemetry.armed
  inAir : after.page.telemetry.inAir =
    (ofKind inAir? served).getLast?.getD before.page.telemetry.inAir
  /-- The digits of latitude and longitude on the page are those the controller wrote. -/
  digits : ∀ fix ∈ (ofKind fix? served).getLast?,
    (Readable fix.1 → after.elements.latitude = format6f fix.1 ++ ['°']) ∧
    (Readable fix.2.1 → after.elements.longitude = format6f fix.2.1 ++ ['°'])

section Update

variable {texts : Texts} {w : Surroundings} {d : DroneControl} {data : Answer}
variable {served : List Served}

theorem asReported_of_answer (hread : texts.read = nearestDouble)
    (hposition : data.position.map PositionRow.position =
      (ofKind fix? served).getLast?.map (heldPosition texts))
    (hbattery : ofKind battery? served = [] ∧ data.battery = none ∨
      ∃ id percent, FirstBattery (ofKind battery? served) id percent ∧
        data.battery = some ⟨value percent, none⟩)
    (hmode : data.flightMode = (ofKind mode? served).getLast?)
    (harmed : data.armed = (ofKind armed? served).getLast?)
    (hinAir : data.inAir = (ofKind inAir? served).getLast?) :
    AsReported texts served d (ControlPage.updateTelemetry w d (some data)) := by
  have htelemetry : (ControlPage.updateTelemetry w d (some data)).page.telemetry =
      updateData data d.page.telemetry := by
    rw [ShownControls.updateTelemetry_page, TelemetryPage.updateTelemetry_telemetry]
  constructor
  · rw [htelemetry, updateData, hposition]
  · rw [htelemetry, updateData]
    rcases hbattery with ⟨hnone, hdata⟩ | ⟨id, percent, hfirst, hdata⟩
    · exact .inl ⟨hnone, by rw [hdata, Option.none_or]⟩
    · exact .inr ⟨id, percent, hfirst, by rw [hdata, Option.some_or]⟩
  · rw [htelemetry, updateData, hmode]
  · rw [htelemetry, updateData, harmed]
  · rw [htelemetry, updateData, hinAir]
  · intro fix hfix
    have hheld : (updateData data d.page.telemetry).position = some (heldPosition texts fix) := by
      rw [updateData, hposition, Option.mem_def.mp hfix, Option.map_some, Option.some_or]
    rw [ShownControls.updateTelemetry_elements]
    simp only [updateTelemetryUI, coordinateText, hheld, heldPosition]
    exact ⟨fun h => by rw [toFixed_readBack _ hread h], fun h => by rw [toFixed_readBack _ hread h]⟩

end Update

/-- Once the reports of the drone have been served, among any other requests that
store nothing, and written, the next update of the page brings it to the events
reported last, of the batteries to that of the first one, with the digits of the
controller in latitude and longitude. -/
theorem reported_shown (texts : Texts) (hread : texts.read = nearestDouble)
    (loads : List Char → Option Json) (clock : ℤ → String) (timeOf : Json → ℤ) (w : Surroundings)
    (db : CommandServer.Database) (now asked : ℤ) (served : List Served) (arrivals : List ℤ)
    (hsound : ∀ a ∈ served, Sound texts loads a)
    (hfinite : ∀ r ∈ reports served, ∀ x ∈ coordinates r.1, value (readBack texts x) ≠ none)
    (hpercent : ∀ q ∈ ofKind battery? served, value q.2 ≠ none)
    (h : Settled texts loads db now served arrivals asked) (bucket : String)
    (query : String → QueryResult)
    (hflux : Evaluates query (fun t => .str (clock t)) asked
      (record (entries texts (batches texts loads db now served) arrivals)) bucket "default")
    (d : DroneControl) :
    AsReported texts served d (ControlPage.updateTelemetry w d (readAnswer timeOf (lastTelemetry
      (queries query bucket "default")))) := by
  have hwritten := h.written hsound
  have hdatabase : record (entries texts (batches texts loads db now served) arrivals) =
      database texts now (served.flatMap (Served.calls texts)) arrivals := by
    rw [batches_eq hsound]
    rfl
  rw [hdatabase] at hflux
  obtain ⟨position, hposition, hcarried, hpositionRead⟩ :=
    position_read hwritten clock timeOf hfinite
  obtain ⟨battery, hbattery, hcarried', hbatteryRead⟩ :=
    battery_read hwritten clock hpercent
  have hmode : ∀ e stamp c, mode? e = some c → ∃ v,
      (recorded (readBack texts) stamp e).fields = [("mode", v)] ∧ string v = some c ∧
        carried v = true := by
    intro e stamp c hc
    cases e <;> cases hc
    exact ⟨_, rfl, rfl, rfl⟩
  have harmed : ∀ e stamp c, armed? e = some c → ∃ v,
      (recorded (readBack texts) stamp e).fields = [("armed", v)] ∧ boolean v = some c ∧
        carried v = true := by
    intro e stamp c hc
    cases e <;> cases hc
    exact ⟨_, rfl, rfl, rfl⟩
  have hinAir : ∀ e stamp c, inAir? e = some c → ∃ v,
      (recorded (readBack texts) stamp e).fields = [("in_air", v)] ∧ boolean v = some c ∧
        carried v = true := by
    intro e stamp c hc
    cases e <;> cases hc
    exact ⟨_, rfl, rfl, rfl⟩
  obtain ⟨mode, hlastMode, hcarriedMode, hmodeRead⟩ := value_read hwritten clock "flight_mode"
    "mode" rfl (by decide) (by decide) (fun e => by cases e <;> rfl) hmode
  obtain ⟨armed, hlastArmed, hcarriedArmed, harmedRead⟩ := value_read hwritten clock "armed"
    "armed" rfl (by decide) (by decide) (fun e => by cases e <;> rfl) harmed
  obtain ⟨inAir, hlastInAir, hcarriedInAir, hinAirRead⟩ := value_read hwritten clock "in_air"
    "in_air" rfl (by decide) (by decide) (fun e => by cases e <;> rfl) hinAir
  have hresponse : lastTelemetry (queries query bucket "default") =
      ⟨200, .json (.obj [("position", position), ("battery", battery), ("flight_mode", mode),
        ("armed", armed), ("in_air", inAir)])⟩ := by
    simp only [lastTelemetry, queries, hflux.position.plain plain_default,
      hflux.battery.plain plain_default, hflux.flightMode.plain plain_default,
      hflux.armed.plain plain_default, hflux.inAir.plain plain_default, hposition, hbattery,
      TelemetryRoutes.lastFlightMode, hlastMode, TelemetryRoutes.lastArmed, hlastArmed,
      TelemetryRoutes.lastInAir, hlastInAir, ok_bind]
    rfl
  have hanswer : readAnswer timeOf (lastTelemetry (queries query bucket "default")) =
      some (answerOf timeOf (.obj [("position", position), ("battery", battery),
        ("flight_mode", mode), ("armed", armed), ("in_air", inAir)])) := by
    rw [hresponse, readAnswer]
    simp [hcarried, hcarried', hcarriedMode, hcarriedArmed, hcarriedInAir]
  rw [hanswer]
  apply asReported_of_answer hread
  · exact hpositionRead
  · rcases hbatteryRead with ⟨hnone, hbody⟩ | ⟨id, percent, hfirst, hbody⟩
    · exact .inl ⟨hnone, congrArg (Option.map batteryRow) hbody⟩
    · exact .inr ⟨id, percent, hfirst, hbody⟩
  · exact hmodeRead
  · exact harmedRead
  · exact hinAirRead

/-- The events of a flight, posted one a microsecond. -/
def flightServed : List Served :=
  flight.mapIdx fun i e => .report e 0 ⟨i, i, i, .returned⟩ ⟨i, i, i, .returned⟩

theorem flightServed_sound : ∀ a ∈ flightServed, Sound halfTexts flightLoads a := by
  intro a ha
  obtain ⟨i, hi, hia⟩ := List.mem_mapIdx.mp ha
  rw [← hia]
  exact ⟨flight_emitted _ (List.getElem_mem hi), flight_loads _ (List.getElem_mem hi)⟩

theorem flight_shown : ∃ after, AsReported halfTexts flightServed (start "Never") after ∧
    after.page.telemetry.flightMode = some "HOLD" ∧
    after.elements.latitude = "19.500000°".toList := by
  have hfinite : ∀ r ∈ reports flightServed, ∀ x ∈ coordinates r.1,
      value (readBack halfTexts x) ≠ none := by
    intro r hr x hx
    obtain ⟨a, ha, har⟩ := List.mem_filterMap.mp hr
    obtain ⟨i, hi, hia⟩ := List.mem_mapIdx.mp ha
    rw [← hia] at har
    rw [← Option.some.inj har] at hx
    have hmem : flight[i] ∈ flight := List.getElem_mem hi
    have hcoordinate : Coordinate x := by
      have hemitted := flight_emitted _ hmem
      generalize flight[i] = e at hx hemitted
      cases e with
      | position latitude longitude altitude =>
        simp only [coordinates, List.mem_cons, List.not_mem_nil, or_false] at hx
        rcases hx with hx | hx | hx
        · exact hx ▸ hemitted.1
        · exact hx ▸ hemitted.2.1
        · exact hx ▸ hemitted.2.2
      | _ => exact absurd hx List.not_mem_nil
    obtain ⟨_, w, _, hw, _⟩ := value_roundedFloat hcoordinate
    rw [flight_exact _ hmem x hx, hw]
    exact Option.some_ne_none w
  have hpercent : ∀ q ∈ ofKind battery? flightServed, value q.2 ≠ none := by decide +kernel
  have hsettled : Settled halfTexts flightLoads CommandServer.Database.empty 0 flightServed
      [1, 2, 3, 4, 5] 10 := by
    refine ⟨by decide, ?_, by decide, ?_, by decide, by decide⟩
    · rw [batches_eq flightServed_sound]
      rfl
    · decide
  have hshown := reported_shown halfTexts rfl flightLoads (fun _ => "") (fun _ => 0)
    ShownControls.surroundings CommandServer.Database.empty 0 10 flightServed [1, 2, 3, 4, 5]
    flightServed_sound hfinite hpercent hsettled "drone_telemetry" _ (fluxAt_evaluates _ 10 _)
    (start "Never")
  refine ⟨_, hshown, hshown.flightMode, ?_⟩
  have hreadable :
      Readable (.finite false (decimalValue "19".toList "50000011920928955078125".toList)) :=
    ⟨false, _, rfl, by decide +kernel, fun hnegative => absurd hnegative Bool.false_ne_true⟩
  rw [(hshown.digits _ rfl).1 hreadable]
  decide +kernel

end Cherum.ReportedTelemetry
