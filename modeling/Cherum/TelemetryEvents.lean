import Cherum.LineFraming
import Cherum.PythonFloat

/-! controller.py's side of the telemetry: what the five monitors put on the
telemetry queue, the text `queue_parser` makes of it, and the bytes that
`pub_telemetry` writes for it. -/

namespace Cherum.TelemetryEvents
open FixedDecimal LineFraming PythonFloat PythonJson

/-- What mavsdk reports; it numbers batteries with 32 bits. -/
inductive Event
  | armed (armed : Bool)
  | inAir (inAir : Bool)
  | position (latitude longitude altitude : PyFloat)
  | battery (id : UInt32) (remainingPercent : PyFloat)
  | flightMode (mode : String)

/-- The dictionary the event's monitor puts on the queue. -/
def message : Event → Json
  | .armed armed => .obj [("type", .str "armed"), ("armed", .bool armed)]
  | .inAir inAir => .obj [("type", .str "in_air"), ("in_air", .bool inAir)]
  | .position latitude longitude altitude =>
    .obj [("type", .str "position"),
      ("data", .obj [("latitude_deg", .str (String.ofList (format6f latitude))),
        ("longitude_deg", .str (String.ofList (format6f longitude))),
        ("relative_altitude_m", .str (String.ofList (format6f altitude)))])]
  | .battery id remainingPercent =>
    .obj [("type", .str "battery"),
      ("data", .obj [("id", .int id.toNat), ("remaining_percent", .float remainingPercent)])]
  | .flightMode mode =>
    .obj [("type", .str "flight_mode"), ("data", .obj [("mode", .str mode)])]

/-- `json.dumps(msg)` of `queue_parser`. -/
def text (texts : Texts) (e : Event) : List Char := dumps texts (message e)

def encode (text : List Char) : ByteArray := (String.ofList text).toUTF8

/-- What `pub_telemetry` writes: for each message its text, then a newline. -/
def published (texts : Texts) (events : List Event) : ByteArray :=
  events.foldl (fun out e => out ++ encode (text texts e) ++ encode ['\n']) ByteArray.empty

/-- A finite number below `10 ^ 309`, the range of a double. -/
def Coordinate : PyFloat → Prop
  | .finite _ magnitude => Below 309 magnitude
  | _ => False

/-- Coordinates are numbers, and a mode name leaves the message below the limit. -/
def Emitted (texts : Texts) : Event → Prop
  | .position latitude longitude altitude =>
    Coordinate latitude ∧ Coordinate longitude ∧ Coordinate altitude
  | .flightMode mode => (text texts (.flightMode mode)).length ≤ 2047
  | _ => True

theorem escapeChar_digit {c : Char} (h : c.isDigit = true) : escapeChar c = [c] := by
  have hne : ∀ d : Char, d.isDigit = false → c ≠ d := by
    intro d hd heq
    rw [heq, hd] at h
    exact Bool.false_ne_true h
  simp only [escapeChar, hne '"' rfl, hne '\\' rfl, hne '\n' rfl, hne '\r' rfl, hne '\t' rfl,
    hne (Char.ofNat 12) rfl, hne (Char.ofNat 8) rfl, isDigit_printable h, if_true, if_false]

theorem dumpsStr_format6f (negative : Bool) (magnitude : ℚ≥0) :
    dumpsStr (String.ofList (format6f (.finite negative magnitude))) =
      '"' :: (format6f (.finite negative magnitude) ++ ['"']) := by
  obtain ⟨whole, fraction, htext, _, hwhole, hfraction, _⟩ := fixedText_parts 6 magnitude
  have hsign : (signText negative).flatMap escapeChar = signText negative := by
    cases negative <;> rfl
  have hdigits : ∀ digits : List Char, (∀ c ∈ digits, c.isDigit = true) →
      digits.flatMap escapeChar = digits := by
    intro digits hdigits
    rw [List.flatMap_congr fun c hc => escapeChar_digit (hdigits c hc), List.flatMap_singleton']
  have hpoint : escapeChar '.' = ['.'] := rfl
  simp only [dumpsStr, format6f, htext, String.toList_ofList, List.flatMap_append,
    List.flatMap_cons, hsign, hdigits whole hwhole, hdigits fraction hfraction, hpoint,
    List.singleton_append]

theorem dumpsStr_coordinate {x : PyFloat} (h : Coordinate x) :
    (dumpsStr (String.ofList (format6f x))).length ≤ 320 := by
  cases x with
  | nan => exact h.elim
  | inf negative => exact h.elim
  | finite negative magnitude =>
    have hlength := format6f_length negative h
    rw [dumpsStr_format6f, List.length_cons, List.length_append, List.length_singleton]
    omega

theorem dumpsFloat_length (texts : Texts) (x : PyFloat) : (dumpsFloat texts x).length ≤ 24 := by
  cases x with
  | nan =>
    have hnan : "NaN".toList.length ≤ 24 := by decide
    exact hnan
  | inf negative =>
    have hinf : "Infinity".toList.length ≤ 24 ∧ "-Infinity".toList.length ≤ 24 := by decide
    cases negative with
    | false => exact hinf.1
    | true => exact hinf.2
  | finite negative magnitude => exact texts.float_short _

theorem text_printable (texts : Texts) (e : Event) : AllPrintable (text texts e) :=
  dumps_printable texts (message e)

theorem newline_notMem_text (texts : Texts) (e : Event) : '\n' ∉ text texts e :=
  fun h => absurd (text_printable texts e _ h) (by decide)

theorem text_length {texts : Texts} {e : Event} (h : Emitted texts e) :
    (text texts e).length ≤ 2047 := by
  have htype : (dumpsStr "type").length = 6 ∧ (dumpsStr "data").length = 6 := by decide
  have hsep : ": ".toList.length = 2 ∧ ", ".toList.length = 2 := by decide
  cases e with
  | armed armed =>
    have htext : ∀ b, (text noTexts (.armed b)).length ≤ 2047 := by decide
    cases armed with
    | false => exact htext false
    | true => exact htext true
  | inAir inAir =>
    have htext : ∀ b, (text noTexts (.inAir b)).length ≤ 2047 := by decide
    cases inAir with
    | false => exact htext false
    | true => exact htext true
  | position latitude longitude altitude =>
    have hlatitude := dumpsStr_coordinate h.1
    have hlongitude := dumpsStr_coordinate h.2.1
    have haltitude := dumpsStr_coordinate h.2.2
    have hkeys : (dumpsStr "position").length = 10 ∧ (dumpsStr "latitude_deg").length = 14 ∧
        (dumpsStr "longitude_deg").length = 15 ∧ (dumpsStr "relative_altitude_m").length = 21 := by
      decide
    simp only [text, message, dumps, dumpsFields, List.length_append, List.length_cons,
      List.length_nil, htype, hsep, hkeys]
    omega
  | battery id remainingPercent =>
    have hpercent := dumpsFloat_length texts remainingPercent
    have hid : (intText id.toNat).length ≤ 10 := by
      have hlt : id.toNat < 10 ^ 10 := id.toNat_lt.trans (by decide)
      exact (Nat.length_toDigits_le_iff (by decide) (by decide)).mpr hlt
    have hkeys : (dumpsStr "battery").length = 9 ∧ (dumpsStr "id").length = 4 ∧
        (dumpsStr "remaining_percent").length = 19 := by decide
    simp only [text, message, dumps, dumpsFields, List.length_append, List.length_cons,
      List.length_nil, htype, hsep, hkeys]
    omega
  | flightMode mode => exact h

theorem encode_append (first second : List Char) :
    encode (first ++ second) = encode first ++ encode second := by
  simp [encode]

theorem published_eq (texts : Texts) (events : List Event) :
    published texts events = encode (frames '\n' (events.map (text texts))) := by
  have hfold : ∀ out, events.foldl
      (fun out e => out ++ encode (text texts e) ++ encode ['\n']) out =
      out ++ encode (frames '\n' (events.map (text texts))) := by
    induction events with
    | nil =>
      intro out
      simp [encode]
    | cons e rest ih =>
      intro out
      rw [List.foldl_cons, ih, List.map_cons, frames_cons, frame, encode_append, encode_append]
      simp only [ByteArray.append_assoc]
  have hstart := hfold ByteArray.empty
  rw [ByteArray.empty_append] at hstart
  exact hstart

end Cherum.TelemetryEvents
