import Cherum.TelemetryEvents
import Cherum.TelemetryRoutes

/-! Telemetry on its whole way: from a monitor of controller.py over the pipe,
through the `readline(2048)` calls of telemetry.py, into the store of the server
by `POST /telemetry`. `loads` stands for `json.loads` behind `request.json`. -/

namespace Cherum.TelemetryWire
open FixedDecimal HttpMessages LineFraming PythonFloat PythonJson
open TelemetryEvents TelemetryRoutes TelemetryStore

/-- Newlines as Python's text mode reads them. -/
def universalNewlines : List Char → List Char
  | [] => []
  | '\r' :: '\n' :: rest => '\n' :: universalNewlines rest
  | '\r' :: rest => '\n' :: universalNewlines rest
  | c :: rest => c :: universalNewlines rest

def textOf (bytes : ByteArray) : Option (List Char) :=
  (String.fromUTF8? bytes).map fun content => universalNewlines content.toList

def line (texts : Texts) (e : Event) : List Char := frame '\n' (text texts e)

def requestBody (loads : List Char → Option Json) (line : List Char) : RequestBody :=
  match loads line with
  | some value => .json value
  | none => .malformed

/-- A coordinate after it was written with six decimals and read back. -/
def readBack (texts : Texts) : PyFloat → PyFloat
  | .finite negative magnitude => texts.read negative (rounded 6 magnitude)
  | x => x

def roundedFloat : PyFloat → PyFloat
  | .finite negative magnitude => .finite negative (rounded 6 magnitude)
  | x => x

/-- What the store has of an event, with the coordinates as `place` leaves them. -/
def recorded (place : PyFloat → PyFloat) (now : ℤ) : Event → Point
  | .armed armed =>
    { measurement := "armed", tags := [("drone_id", .str "default")],
      fields := [("armed", .bool armed)], time := none }
  | .inAir inAir =>
    { measurement := "in_air", tags := [("drone_id", .str "default")],
      fields := [("in_air", .bool inAir)], time := none }
  | .position latitude longitude altitude =>
    { measurement := "position", tags := [("drone_id", .str "default")],
      fields := [("latitude", .float (place latitude)), ("longitude", .float (place longitude)),
        ("altitude", .float (place altitude))],
      time := some now }
  | .battery id remainingPercent =>
    { measurement := "battery",
      tags := [("drone_id", .str "default"),
        ("battery_id", .str (String.ofList (Nat.toDigits 10 id.toNat)))],
      fields := [("remaining_percent", .float remainingPercent)], time := some now }
  | .flightMode mode =>
    { measurement := "flight_mode", tags := [("drone_id", .str "default")],
      fields := [("mode", .str mode)], time := some now }

def coordinates : Event → List PyFloat
  | .position latitude longitude altitude => [latitude, longitude, altitude]
  | _ => []

/-- `float()` reads the texts of the event's coordinates exactly. -/
def ExactlyRead (texts : Texts) (e : Event) : Prop :=
  ∀ x ∈ coordinates e, readBack texts x = roundedFloat x

def value : PyFloat → Option ℚ
  | .finite true magnitude => some (-magnitude)
  | .finite false magnitude => some magnitude
  | _ => none

theorem recorded_exact {texts : Texts} {e : Event} (h : ExactlyRead texts e) (now : ℤ) :
    recorded (readBack texts) now e = recorded roundedFloat now e := by
  cases e with
  | position latitude longitude altitude =>
    have hlatitude := h latitude (by simp [coordinates])
    have hlongitude := h longitude (by simp [coordinates])
    have haltitude := h altitude (by simp [coordinates])
    rw [recorded, recorded, hlatitude, hlongitude, haltitude]
  | _ => rfl

theorem universalNewlines_eq {content : List Char} (h : '\r' ∉ content) :
    universalNewlines content = content := by
  fun_induction universalNewlines content with
  | case1 => rfl
  | case2 rest ih => exact absurd List.mem_cons_self h
  | case3 rest hnl ih => exact absurd List.mem_cons_self h
  | case4 c rest hcr hcrnl ih => rw [ih fun hrest => h (List.mem_cons_of_mem c hrest)]

theorem return_notMem_frames (texts : Texts) (events : List Event) :
    '\r' ∉ frames '\n' (events.map (text texts)) := by
  intro h
  obtain ⟨content, hcontent, hmem⟩ := List.mem_flatMap.mp h
  obtain ⟨e, _, he⟩ := List.mem_map.mp hcontent
  rw [← he] at hmem
  cases List.mem_append.mp hmem with
  | inl hmem => exact absurd (text_printable texts e _ hmem) (by decide)
  | inr hmem => exact absurd hmem (by decide)

theorem textOf_published (texts : Texts) (events : List Event) :
    textOf (published texts events) = some (frames '\n' (events.map (text texts))) := by
  have hdecode : ∀ content : String, String.fromUTF8? content.toUTF8 = some content := by
    intro content
    simp only [String.fromUTF8?, String.toUTF8_eq_toByteArray, content.isValidUTF8, dif_pos]
    rfl
  rw [textOf, published_eq, encode, hdecode, Option.map_some, String.toList_ofList,
    universalNewlines_eq (return_notMem_frames texts events)]

theorem pyFloat_coordinate (texts : Texts) {x : PyFloat} (h : Coordinate x) :
    pyFloat texts (.str (String.ofList (format6f x))) = .ok (readBack texts x) := by
  cases x with
  | nan => exact h.elim
  | inf negative => exact h.elim
  | finite negative magnitude =>
    simp only [pyFloat, String.toList_ofList, floatText_format6f, readBack]

theorem value_roundedFloat {x : PyFloat} (h : Coordinate x) :
    ∃ v w, value x = some v ∧ value (roundedFloat x) = some w ∧ |w - v| ≤ 1 / 2000000 := by
  cases x with
  | nan => exact h.elim
  | inf negative => exact h.elim
  | finite negative magnitude =>
    have hnear := rounded_near 6 magnitude
    have hunit : (1 : ℚ) / (2 * 10 ^ 6) = 1 / 2000000 := by norm_num
    rw [hunit] at hnear
    cases negative with
    | false => exact ⟨_, _, rfl, rfl, hnear⟩
    | true =>
      refine ⟨_, _, rfl, rfl, ?_⟩
      rw [neg_sub_neg, abs_sub_comm]
      exact hnear

theorem lacksType_message (e : Event) : lacksType (message e) = .ok false := by
  cases e <;> rfl

theorem dispatch_message {texts : Texts} {e : Event} (h : Emitted texts e) :
    dispatch texts (message e) =
      .ok (some fun call => append (recorded (readBack texts) call.stamp e) call) := by
  cases e with
  | armed armed => rfl
  | inAir inAir => rfl
  | position latitude longitude altitude =>
    have hlatitude := pyFloat_coordinate texts h.1
    have hlongitude := pyFloat_coordinate texts h.2.1
    have haltitude := pyFloat_coordinate texts h.2.2
    have htype : Json.isStr "position" (.str "position") = true := rfl
    simp (disch := decide) only [dispatch, message, Json.getItem_head, Json.getItem_tail,
      ok_bind, htype, if_true, hlatitude, hlongitude, haltitude]
    rfl
  | battery id remainingPercent => rfl
  | flightMode mode => rfl

theorem post_line {texts : Texts} {loads : List Char → Option Json} {e : Event}
    (h : Emitted texts e) (hloads : loads (line texts e) = some (message e)) (call : Call)
    (s : Store) :
    (postTelemetry texts true (requestBody loads (line texts e)) call s).1 = received ∧
    (postTelemetry texts true (requestBody loads (line texts e)) call s).2.points =
      s.points ++ [recorded (readBack texts) call.stamp e] := by
  have hpost : postTelemetry texts true (requestBody loads (line texts e)) call s =
      (received, append (recorded (readBack texts) call.stamp e) call s) := by
    simp only [requestBody, hloads, postTelemetry, if_true, lacksType_message, dispatch_message h]
  rw [hpost]
  exact ⟨rfl, append_points _ call s⟩

/-- Every sequence of events arrives: the reader finds one line for each, in
order, none with a newline inside or beyond the limit; each line, posted with a
valid token, is acknowledged and stored as the point of its event; and the
coordinates in the point are within half a millionth of the emitted ones. -/
theorem telemetry_round_trip (texts : Texts) (loads : List Char → Option Json)
    (events : List Event) (hemitted : ∀ e ∈ events, Emitted texts e)
    (hloads : ∀ e ∈ events, loads (line texts e) = some (message e))
    (hread : ∀ e ∈ events, ExactlyRead texts e) :
    (∃ content, textOf (published texts events) = some content ∧
      ∀ more, readLines '\n' 2048 (events.length + more) content =
        events.map (line texts) ++ List.replicate more []) ∧
    (∀ e ∈ events, '\n' ∉ text texts e ∧ (text texts e).length ≤ 2047) ∧
    (∀ e ∈ events, ∀ call s,
      (postTelemetry texts true (requestBody loads (line texts e)) call s).1 = received ∧
      (postTelemetry texts true (requestBody loads (line texts e)) call s).2.points =
        s.points ++ [recorded roundedFloat call.stamp e]) ∧
    ∀ e ∈ events, ∀ x ∈ coordinates e, ∃ v w, value x = some v ∧
      value (roundedFloat x) = some w ∧ |w - v| ≤ 1 / 2000000 := by
  refine ⟨⟨_, textOf_published texts events, fun more => ?_⟩, fun e he => ?_,
    fun e he call s => ?_, fun e he x hx => ?_⟩
  · have hlines : ∀ content ∈ events.map (text texts), '\n' ∉ content ∧ content.length < 2048 := by
      intro content hcontent
      obtain ⟨e, he, htext⟩ := List.mem_map.mp hcontent
      rw [← htext]
      exact ⟨newline_notMem_text texts e, Nat.lt_succ_of_le (text_length (hemitted e he))⟩
    have hread := readLines_frames hlines more
    rw [List.length_map, List.map_map] at hread
    exact hread
  · exact ⟨newline_notMem_text texts e, text_length (hemitted e he)⟩
  · rw [← recorded_exact (hread e he)]
    exact post_line (hemitted e he) (hloads e he) call s
  · have hcoordinates := hemitted e he
    cases e with
    | position latitude longitude altitude =>
      simp only [coordinates, List.mem_cons, List.not_mem_nil, or_false] at hx
      rcases hx with hx | hx | hx
      · exact hx ▸ value_roundedFloat hcoordinates.1
      · exact hx ▸ value_roundedFloat hcoordinates.2.1
      · exact hx ▸ value_roundedFloat hcoordinates.2.2
    | _ => simp [coordinates] at hx

/-- Texts for a flight in which the only float written as such is one half. -/
def halfTexts : Texts where
  float x := if x = .finite false (decimalValue "0".toList "5".toList) then "0.5".toList else []
  container _ := ""
  read := nearestDouble
  float_printable x := by
    have htext : AllPrintable "0.5".toList := by decide
    split
    · exact htext
    · exact fun c hc => absurd hc List.not_mem_nil
  float_short x := by
    split <;> decide

/-- The latitude is a little above a number that has six decimals. -/
def flight : List Event :=
  [.armed true, .battery 0 (.finite false (decimalValue "0".toList "5".toList)), .inAir false,
    .flightMode "HOLD",
    .position (.finite false (decimalValue "19".toList "50000011920928955078125".toList))
      (.finite true (decimalValue "99".toList "125".toList))
      (.finite false (decimalValue "12".toList []))]

/-- `json.loads` on the lines of the flight. -/
def flightLoads (content : List Char) : Option Json :=
  (flight.findIdx? fun e => line halfTexts e == content).bind fun i => flight[i]?.map message

theorem flight_emitted : ∀ e ∈ flight, Emitted halfTexts e := by
  have hmode : (text halfTexts (.flightMode "HOLD")).length ≤ 2047 := by decide
  have hposition :
      Coordinate (.finite false (decimalValue "19".toList "50000011920928955078125".toList)) ∧
      Coordinate (.finite true (decimalValue "99".toList "125".toList)) ∧
      Coordinate (.finite false (decimalValue "12".toList [])) := by
    unfold Coordinate Below
    decide +kernel
  simp only [flight, List.forall_mem_cons]
  exact ⟨trivial, trivial, trivial, hmode, hposition, fun _ h => absurd h List.not_mem_nil⟩

theorem flight_loads : ∀ e ∈ flight, flightLoads (line halfTexts e) = some (message e) := by
  have hindex : ∀ i : Fin flight.length,
      (flight.findIdx? fun e => line halfTexts e == line halfTexts (flight.get i)) =
        some i.val := by
    decide +kernel
  intro e he
  obtain ⟨i, hi⟩ := List.mem_iff_get.mp he
  rw [← hi, flightLoads, hindex i, Option.bind_some, List.getElem?_eq_getElem i.isLt]
  rfl

theorem nearestDouble_eighths (negative : Bool) {x : ℚ≥0} {m : ℕ} (hm : m < 1000)
    (hx : x = m / 2 ^ 3) : nearestDouble negative x = .finite negative x := by
  have hfinite : x < overflowBound := by
    have hbound : ((125 : ℕ) : ℚ≥0) < overflowBound := Nat.cast_lt.mpr (by decide +kernel)
    refine lt_trans ?_ hbound
    rw [hx, div_lt_iff₀ (by positivity)]
    exact_mod_cast hm
  have hplaces : roundedBinary x = x := by
    rw [hx]
    exact roundedBinary_dyadic (hm.trans (by decide)) (by decide)
  rw [nearestDouble, if_pos hfinite, hplaces]

theorem flight_exact : ∀ e ∈ flight, ExactlyRead halfTexts e := by
  have hlatitude : rounded 6 (decimalValue "19".toList "50000011920928955078125".toList) =
      (156 : ℕ) / 2 ^ 3 := by
    decide +kernel
  have hlongitude : rounded 6 (decimalValue "99".toList "125".toList) = (793 : ℕ) / 2 ^ 3 := by
    decide +kernel
  have haltitude : rounded 6 (decimalValue "12".toList []) = (96 : ℕ) / 2 ^ 3 := by decide +kernel
  have hposition : ExactlyRead halfTexts
      (.position (.finite false (decimalValue "19".toList "50000011920928955078125".toList))
        (.finite true (decimalValue "99".toList "125".toList))
        (.finite false (decimalValue "12".toList []))) := by
    simp only [ExactlyRead, coordinates, List.forall_mem_cons]
    exact ⟨nearestDouble_eighths false (by decide) hlatitude,
      nearestDouble_eighths true (by decide) hlongitude,
      nearestDouble_eighths false (by decide) haltitude, fun _ h => absurd h List.not_mem_nil⟩
  have hnone : ∀ e : Event, coordinates e = [] → ExactlyRead halfTexts e :=
    fun e he x hx => absurd (he ▸ hx) List.not_mem_nil
  simp only [flight, List.forall_mem_cons]
  exact ⟨hnone _ rfl, hnone _ rfl, hnone _ rfl, hnone _ rfl, hposition,
    fun _ h => absurd h List.not_mem_nil⟩

theorem flight_arrives :
    (∃ content, textOf (published halfTexts flight) = some content ∧
      readLines '\n' 2048 (flight.length + 2) content =
        flight.map (line halfTexts) ++ [[], []]) ∧
    (postTelemetry halfTexts true (requestBody flightLoads (line halfTexts (.armed true)))
      ⟨0, 0, 0, .returned⟩ (TelemetryStore.new 0)).1 = received := by
  obtain ⟨⟨content, hcontent, hread⟩, _, hpost, _⟩ :=
    telemetry_round_trip halfTexts flightLoads flight flight_emitted flight_loads flight_exact
  exact ⟨⟨content, hcontent, hread 2⟩, (hpost (.armed true) (.head _) _ _).1⟩

end Cherum.TelemetryWire
