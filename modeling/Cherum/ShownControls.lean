import Cherum.ControlPage
import Cherum.DeliveryGuarantees

/-! What the page of app.js shows, after any interleaving of its two updates,
whatever their outcomes, with clicks and the answers to them: the telemetry it
holds, the last failure that no telemetry update has followed, and on the buttons the
reported flight mode or a command sent since then. -/

namespace Cherum.ShownControls
open ActionRuns ConnectionStatus ControlPage
open FixedDecimal
open TelemetryPage (Answer BatteryRow Position Telemetry updateData updateMapPosition)
open DeliveryGuarantees (Known)

/-- A decimal text with this many places whose number is nearest to `x`. -/
def Nearest (places : ℕ) (x : ℚ) (text : List Char) : Prop :=
  ∃ whole fraction : List Char,
    text = (if x < 0 then ['-'] else []) ++ whole ++ '.' :: fraction ∧
    fraction.length = places ∧ (∀ c ∈ whole ++ fraction, c.isDigit = true) ∧
    |(decimalValue whole fraction : ℚ) - abs x| ≤ 1 / (2 * 10 ^ places)

/-- The text of a coordinate with its unit; a huge one has the browser's own text. -/
def Reads (n : Numbers) (places : ℕ) (unit : String) (shown : List Char) : Option ℚ → Prop
  | none => shown = "NaN".toList ++ unit.toList
  | some x =>
    if 10 ^ 21 ≤ |x| then shown = n.toString x ++ unit.toList
    else ∃ text, shown = text ++ unit.toList ∧ Nearest places x text

/-- The telemetry elements show the telemetry; the icon stays as it was until a
percentage is known. -/
structure Shows (n : Numbers) (t : Telemetry) (e : Elements) : Prop where
  unlocated : t.position = none → e.latitude = "---.------°".toList ∧
    e.longitude = "---.------°".toList ∧ e.altitude = "--- m".toList
  located : ∀ position, t.position = some position →
    Reads n 6 "°" e.latitude position.latitude ∧ Reads n 6 "°" e.longitude position.longitude ∧
    Reads n 1 " m" e.altitude position.altitude
  uncharged : t.battery.bind BatteryRow.percentage = none → e.battery = "--%".toList
  charged : ∀ value, t.battery.bind BatteryRow.percentage = some value →
    e.battery = n.toString value ++ "%".toList ∧
    (e.batteryIcon = "🔋" ↔ 30 < value) ∧
    (e.batteryClass = "battery-icon battery-good" ↔ 60 < value) ∧
    (e.batteryClass = "battery-icon battery-low" ↔ value ≤ 30)
  unknownMode : t.flightMode = none ∨ t.flightMode = some "" → e.flightMode = "---"
  flightMode : ∀ mode, t.flightMode = some mode → mode ≠ "" → e.flightMode = mode
  armed : e.armedStatus = t.armed
  inAir : e.airStatus = t.inAir

def modes : List (String × String) :=
  [("loiter", "HOLD"), ("land", "LAND"), ("rtl", "RETURN_TO_LAUNCH")]

def buttonValues : List String := ["loiter", "land", "rtl"]

structure Coherent (n : Numbers) (d : DroneControl) : Prop where
  telemetry : Shows n d.page.telemetry d.elements
  display : d.errorDisplay = if d.page.error.isSome then "block" else "none"
  message : ∀ m, d.page.error = some m → d.errorText = m
  classes : ∀ b ∈ d.elements.commandButtons, b.secondary = !b.primary
  values : d.elements.commandButtons.map Button.value = buttonValues

variable {w : Surroundings} {d : DroneControl}

section Update

variable (w d)

theorem updateTelemetry_page (answer : Option Answer) :
    (updateTelemetry w d answer).page = TelemetryPage.updateTelemetry w.refuses d.page answer := by
  cases answer with
  | none => rfl
  | some data =>
    unfold updateTelemetry TelemetryPage.updateTelemetry
    simp only
    split_ifs <;> rfl

theorem updateTelemetry_elements (data : Answer) :
    (updateTelemetry w d (some data)).elements =
      updateTelemetryUI w.numbers (updateData data d.page.telemetry) d.elements := by
  unfold updateTelemetry
  simp only
  split_ifs <;> rfl

end Update

theorem nearest_unitsText (places : ℕ) (x : ℚ) :
    Nearest places x ((if x < 0 then ['-'] else []) ++
      unitsText places (roundHalfUp (|x| * 10 ^ places))) := by
  have hpos : (0 : ℚ) < 10 ^ places := by positivity
  refine ⟨_, _, by rw [unitsText, List.append_assoc], lastDigits_length _ _, ?_, ?_⟩
  · intro c hc
    cases List.mem_append.mp hc with
    | inl hc => exact Nat.isDigit_of_mem_toDigits (by norm_num) le_rfl hc
    | inr hc => exact lastDigits_isDigit hc
  · rw [decimalValue_units]
    have hbelow := Nat.floor_le (a := |x| * 10 ^ places + 1 / 2) (by positivity)
    have habove := Nat.lt_floor_add_one (|x| * 10 ^ places + 1 / 2)
    have hunits : |(roundHalfUp (|x| * 10 ^ places) : ℚ) - |x| * 10 ^ places| ≤ 1 / 2 := by
      rw [roundHalfUp, abs_le]
      constructor <;> linarith
    calc |(((roundHalfUp (|x| * 10 ^ places) : ℚ≥0) / 10 ^ places : ℚ≥0) : ℚ) - abs x|
        = |(roundHalfUp (|x| * 10 ^ places) : ℚ) - |x| * 10 ^ places| / 10 ^ places := by
          push_cast
          rw [← abs_of_pos hpos, ← abs_div, abs_of_pos hpos, sub_div, mul_div_cancel_right₀ _ hpos.ne']
      _ ≤ 1 / 2 / 10 ^ places := by gcongr
      _ = 1 / (2 * 10 ^ places) := by rw [div_div]

theorem reads_toFixed (n : Numbers) (places : ℕ) (unit : String) (x : Option ℚ) :
    Reads n places unit (toFixed n places x ++ unit.toList) x := by
  cases x with
  | none => rfl
  | some x =>
    simp only [Reads, toFixed]
    by_cases hhuge : 10 ^ 21 ≤ |x|
    · rw [if_pos hhuge, if_pos hhuge]
    · rw [if_neg hhuge, if_neg hhuge]
      exact ⟨_, rfl, nearest_unitsText places x⟩

theorem shows_updateTelemetryUI (n : Numbers) (t : Telemetry) (e : Elements) :
    Shows n t (updateTelemetryUI n t e) where
  unlocated hnone := by simp [updateTelemetryUI, coordinateText, altitudeText, hnone]
  located position hposition := by
    simp only [updateTelemetryUI, coordinateText, altitudeText, hposition]
    exact ⟨reads_toFixed n 6 "°" _, reads_toFixed n 6 "°" _, reads_toFixed n 1 " m" _⟩
  uncharged hnone := by simp only [updateTelemetryUI, batteryText, percentage, hnone]
  charged value hvalue := by
    simp only [updateTelemetryUI, batteryText, percentage, hvalue]
    refine ⟨rfl, ?_⟩
    by_cases hgood : 60 < value
    · have hmedium : 30 < value := by linarith
      simp [hgood, hmedium]
    · by_cases hmedium : 30 < value <;> simp [hgood, hmedium, not_lt.mp]
  unknownMode hnone := by
    rcases hnone with hnone | hempty
    · simp only [updateTelemetryUI, flightModeText, hnone]
    · simp only [updateTelemetryUI, flightModeText, hempty, if_true]
  flightMode mode hmode hnonempty := by
    simp only [updateTelemetryUI, flightModeText, hmode, if_neg hnonempty]
  armed := rfl
  inAir := rfl

theorem Shows.buttons {n : Numbers} {t : Telemetry} {e : Elements} (h : Shows n t e)
    (buttons : List Button) : Shows n t { e with commandButtons := buttons } :=
  ⟨h.unlocated, h.located, h.uncharged, h.charged, h.unknownMode, h.flightMode, h.armed, h.inAir⟩

theorem flightModeToCommand_eq_some {mode : Option String} {command : String} :
    flightModeToCommand mode = some command ↔ ∃ m, mode = some m ∧ (command, m) ∈ modes := by
  unfold flightModeToCommand
  split
  · simp [modes, eq_comm]
  · simp [modes, eq_comm]
  · simp [modes, eq_comm]
  · next hreturn hhold hland =>
    refine iff_of_false (Option.some_ne_none _).symm ?_
    rintro ⟨m, rfl, hm⟩
    simp only [modes, List.mem_cons, Prod.mk.injEq, List.not_mem_nil, or_false] at hm
    rcases hm with ⟨_, rfl⟩ | ⟨_, rfl⟩ | ⟨_, rfl⟩
    · exact hhold rfl
    · exact hland rfl
    · exact hreturn rfl

theorem updateButton_class (t : Telemetry) (b : Button) :
    (updateButton t b).value = b.value ∧
      ((updateButton t b).primary = true ↔ flightModeToCommand t.flightMode = some b.value) ∧
      (updateButton t b).secondary = !(updateButton t b).primary := by
  unfold updateButton
  split_ifs with h <;> simp [Button.highlight, Button.plain, h]

theorem getElem?_highlightTarget (click : Click) (buttons : List Button) (i : ℕ) :
    (highlightTarget click buttons)[i]? = buttons[i]?.map
      fun b => if click = ⟨i, false⟩ then b.highlight else b := by
  obtain ⟨button, onIcon⟩ := click
  unfold highlightTarget
  cases onIcon with
  | true => simp
  | false =>
    rw [if_neg Bool.false_ne_true, List.getElem?_modify]
    by_cases h : button = i <;> simp [h]

theorem highlightTarget_values (click : Click) (buttons : List Button) :
    (highlightTarget click buttons).map Button.value = buttons.map Button.value := by
  apply List.ext_getElem?
  intro i
  rw [List.getElem?_map, List.getElem?_map, getElem?_highlightTarget, Option.map_map]
  congr 1
  funext b
  simp only [Function.comp_apply]
  split_ifs <;> rfl

theorem highlightTarget_classes {click : Click} {buttons : List Button}
    (h : ∀ b ∈ buttons, b.secondary = !b.primary) :
    ∀ b ∈ highlightTarget click buttons, b.secondary = !b.primary := by
  intro b hb
  obtain ⟨i, hi⟩ := List.mem_iff_getElem?.mp hb
  rw [getElem?_highlightTarget, Option.map_eq_some_iff] at hi
  obtain ⟨first, hfirst, hb⟩ := hi
  rw [← hb]
  split_ifs
  · rfl
  · exact h first (List.mem_of_getElem? hfirst)

theorem coherent_start (n : Numbers) (shown : String) : Coherent n (start shown) where
  telemetry :=
    { unlocated := fun _ => ⟨rfl, rfl, rfl⟩
      located := fun _ h => by cases h
      uncharged := fun _ => rfl
      charged := fun _ h => by cases h
      unknownMode := fun _ => rfl
      flightMode := fun _ h => by cases h
      armed := rfl
      inAir := rfl }
  display := rfl
  message _ h := by cases h
  classes := by
    have hbuttons : ∀ b ∈ indexElements.commandButtons, b.secondary = !b.primary := by decide
    exact hbuttons
  values := rfl

/-- The message that a failure shows, `none` inside for an update that clears it. -/
def notice (w : Surroundings) (d : DroneControl) : Action → Option (Option String)
  | .connection .raised => some (some "Error al obtener el estado de conexión")
  | .telemetry none => some (some "Error al obtener telemetría")
  | .telemetry (some data) =>
    if (updateData data d.page.telemetry).position.any fun position => w.refuses position.latLng then
      some (some "Error al obtener telemetría")
    else some none
  | _ => none

structure Notified (n : Option String) (d : DroneControl) : Prop where
  error : d.page.error = n
  display : d.errorDisplay = if n.isSome then "block" else "none"
  message : ∀ m, n = some m → d.errorText = m

theorem updateMapPosition_refused (refuses : TelemetryPage.LatLng → Bool) (p : TelemetryPage.Page) :
    (updateMapPosition refuses p).2 =
      p.telemetry.position.any fun position => refuses position.latLng := by
  unfold updateMapPosition
  cases h : p.telemetry.position with
  | none => rfl
  | some position =>
    simp only [Option.any_some]
    split_ifs <;> simp_all

theorem updateTelemetry_notice (w : Surroundings) (d : DroneControl) (answer : Option Answer) :
    ∃ n, notice w d (.telemetry answer) = some n ∧
      Notified n (ControlPage.updateTelemetry w d answer) := by
  cases answer with
  | none => exact ⟨_, rfl, rfl, rfl, fun _ h => Option.some.inj h⟩
  | some data =>
    simp only [notice, ControlPage.updateTelemetry, updateMapPosition_refused]
    split_ifs with h
    · exact ⟨_, rfl, rfl, rfl, fun _ hm => Option.some.inj hm⟩
    · exact ⟨_, rfl, rfl, rfl, fun _ hm => by cases hm⟩

theorem step_notice {a : Action} {d' : DroneControl} (hstep : step w d a = some d') :
    (∃ n, notice w d a = some n ∧ Notified n d') ∨
    notice w d a = none ∧ d'.page.error = d.page.error ∧ d'.errorDisplay = d.errorDisplay ∧
      d'.errorText = d.errorText := by
  cases a with
  | connection outcome =>
    cases hstep
    cases outcome with
    | answered text now =>
      refine .inr ⟨rfl, ?_⟩
      unfold ControlPage.updateConnectionStatus ConnectionStatus.updateConnectionStatus
      simp only
      split_ifs <;> exact ⟨rfl, rfl, rfl⟩
    | raised => exact .inl ⟨_, rfl, rfl, rfl, fun _ h => Option.some.inj h⟩
  | telemetry answer =>
    cases hstep
    exact .inl (updateTelemetry_notice w d answer)
  | click click =>
    obtain ⟨b, _, hd⟩ := Option.map_eq_some_iff.mp hstep
    rw [← hd]
    exact .inr ⟨rfl, rfl, rfl, rfl⟩
  | answered click =>
    obtain ⟨_, hd⟩ := Option.ite_none_right_eq_some.mp hstep
    rw [← Option.some.inj hd]
    exact .inr ⟨rfl, rfl, rfl, rfl⟩
  | refused click =>
    obtain ⟨_, hd⟩ := Option.ite_none_right_eq_some.mp hstep
    rw [← Option.some.inj hd]
    exact .inr ⟨rfl, rfl, rfl, rfl⟩

theorem step_elements {a : Action} {d' : DroneControl} (hstep : step w d a = some d') :
    (∃ data, a = .telemetry (some data) ∧
      d'.page.telemetry = updateData data d.page.telemetry ∧
      d'.elements = updateTelemetryUI w.numbers d'.page.telemetry d.elements) ∨
    (∃ click, a = .answered click ∧ d'.page.telemetry = d.page.telemetry ∧
      d'.elements = { d.elements with
        commandButtons := highlightTarget click d.elements.commandButtons }) ∨
    (∀ data, a ≠ .telemetry (some data)) ∧ (∀ click, a ≠ .answered click) ∧
      d'.page.telemetry = d.page.telemetry ∧ d'.elements = d.elements := by
  cases a with
  | connection outcome =>
    cases hstep
    exact .inr (.inr ⟨by simp, by simp, rfl, rfl⟩)
  | telemetry answer =>
    cases hstep
    cases answer with
    | none => exact .inr (.inr ⟨by simp, by simp, rfl, rfl⟩)
    | some data =>
      have htelemetry : (ControlPage.updateTelemetry w d (some data)).page.telemetry =
          updateData data d.page.telemetry := by
        rw [updateTelemetry_page, TelemetryPage.updateTelemetry_telemetry]
      refine .inl ⟨data, rfl, htelemetry, ?_⟩
      rw [htelemetry, updateTelemetry_elements]
  | click click =>
    obtain ⟨b, _, hd⟩ := Option.map_eq_some_iff.mp hstep
    rw [← hd]
    exact .inr (.inr ⟨by simp, by simp, rfl, rfl⟩)
  | answered click =>
    obtain ⟨_, hd⟩ := Option.ite_none_right_eq_some.mp hstep
    rw [← Option.some.inj hd]
    exact .inr (.inl ⟨click, rfl, rfl, rfl⟩)
  | refused click =>
    obtain ⟨_, hd⟩ := Option.ite_none_right_eq_some.mp hstep
    rw [← Option.some.inj hd]
    exact .inr (.inr ⟨by simp, by simp, rfl, rfl⟩)

theorem coherent_step (d : DroneControl) (a : Action) (d' : DroneControl)
    (h : Coherent w.numbers d) (hstep : step w d a = some d') : Coherent w.numbers d' := by
  have hnotified : d'.errorDisplay = (if d'.page.error.isSome then "block" else "none") ∧
      ∀ m, d'.page.error = some m → d'.errorText = m := by
    rcases step_notice hstep with ⟨n, _, hn⟩ | ⟨_, herror, hdisplay, htext⟩
    · rw [hn.error]
      exact ⟨hn.display, hn.message⟩
    · rw [herror, hdisplay, htext]
      exact ⟨h.display, h.message⟩
  rcases step_elements hstep with ⟨data, _, _, helements⟩ | ⟨click, _, htelemetry, helements⟩ |
      ⟨_, _, htelemetry, helements⟩
  · refine ⟨?_, hnotified.1, hnotified.2, ?_, ?_⟩
    · rw [helements]
      exact shows_updateTelemetryUI _ _ _
    · rw [helements]
      simp only [updateTelemetryUI, List.forall_mem_map]
      exact fun b _ => (updateButton_class _ b).2.2
    · rw [helements, ← h.values]
      simp only [updateTelemetryUI, List.map_map]
      exact List.map_congr_left fun b _ => (updateButton_class _ b).1
  · refine ⟨?_, hnotified.1, hnotified.2, ?_, ?_⟩
    · rw [htelemetry, helements]
      exact h.telemetry.buttons _
    · rw [helements]
      exact highlightTarget_classes h.classes
    · rw [helements, ← h.values]
      exact highlightTarget_values click _
  · refine ⟨?_, hnotified.1, hnotified.2, ?_, ?_⟩
    · rw [htelemetry, helements]
      exact h.telemetry
    · rw [helements]
      exact h.classes
    · rw [helements]
      exact h.values

def Fails (w : Surroundings) (m : String) (d : DroneControl) (a : Action) : Prop :=
  notice w d a = some (some m)

/-- The step fails with another message, or is a telemetry update that succeeds. -/
def Replaces (w : Surroundings) (m : String) (d : DroneControl) (a : Action) : Prop :=
  ∃ n, notice w d a = some n ∧ n ≠ some m

def Highlighted (i : ℕ) (d : DroneControl) : Prop :=
  ∃ b, d.elements.commandButtons[i]? = some b ∧ b.primary = true

/-- The mode after an answer, which need not have one, is the command's own. -/
def Brings (command : String) (d : DroneControl) (data : Answer) : Prop :=
  ∃ mode, data.flightMode.or d.page.telemetry.flightMode = some mode ∧ (command, mode) ∈ modes

/-- The step is an answer with the mode of the command, or to a click on the button. -/
def Highlights (i : ℕ) (command : String) (d : DroneControl) : Action → Prop
  | .telemetry (some data) => Brings command d data
  | .answered click => click = ⟨i, false⟩
  | _ => False

/-- The step is an answer with another mode. -/
def Unlights (command : String) (d : DroneControl) : Action → Prop
  | .telemetry (some data) => ¬ Brings command d data
  | _ => False

def posts : Action → List String
  | .click click => buttonValues[click.button]?.toList.map fun value =>
    if click.onIcon then "undefined" else value
  | _ => []

theorem error_step (m : String) (d : DroneControl) (a : Action) (d' : DroneControl)
    (hstep : step w d a = some d') :
    d'.page.error = some m ↔ Fails w m d a ∨ d.page.error = some m ∧ ¬ Replaces w m d a := by
  rcases step_notice hstep with ⟨n, hnotice, hn⟩ | ⟨hnotice, herror, _⟩
  · rw [hn.error]
    simp only [Fails, Replaces, hnotice, Option.some.injEq]
    constructor
    · exact .inl
    · rintro (h | ⟨_, h⟩)
      · exact h
      · by_contra hne
        exact h ⟨n, rfl, hne⟩
  · simp [Fails, Replaces, hnotice, herror]

theorem highlighted_step {i : ℕ} {command : String} (hi : buttonValues[i]? = some command)
    (d : DroneControl) (a : Action) (d' : DroneControl) (hd : Coherent w.numbers d)
    (hstep : step w d a = some d') :
    Highlighted i d' ↔ Highlights i command d a ∨ Highlighted i d ∧ ¬ Unlights command d a := by
  rw [← hd.values, List.getElem?_map, Option.map_eq_some_iff] at hi
  obtain ⟨b, hb, hvalue⟩ := hi
  unfold Highlighted
  rcases step_elements hstep with ⟨data, ha, htelemetry, helements⟩ | ⟨click, ha, _, helements⟩ |
      ⟨hdata, hclick, _, helements⟩
  · have hbutton : d'.elements.commandButtons[i]? = some (updateButton d'.page.telemetry b) := by
      rw [helements]
      simp only [updateTelemetryUI, List.getElem?_map, hb, Option.map_some]
    rw [hbutton, ha, ← hvalue]
    have hmode : flightModeToCommand (updateData data d.page.telemetry).flightMode = some b.value ↔
        Brings b.value d data := flightModeToCommand_eq_some
    simp only [Option.some.injEq, exists_eq_left', Highlights, Unlights, (updateButton_class _ b).2.1,
      htelemetry, hmode, not_not]
    tauto
  · have hbutton : d'.elements.commandButtons[i]? =
        some (if click = ⟨i, false⟩ then b.highlight else b) := by
      rw [helements]
      simp only [getElem?_highlightTarget, hb, Option.map_some]
    rw [hbutton, ha, hb]
    simp only [Option.some.injEq, exists_eq_left', Highlights, Unlights]
    split_ifs with h <;> simp [h, Button.highlight]
  · rw [helements]
    have hnone : Highlights i command d a ∨ Unlights command d a → False := by
      intro h
      cases a with
      | telemetry answer =>
        cases answer with
        | none => exact h.elim id id
        | some data => exact hdata data rfl
      | answered click => exact hclick click rfl
      | _ => exact h.elim id id
    tauto

theorem posted_step {a : Action} {d' : DroneControl} (hd : Coherent w.numbers d)
    (hstep : step w d a = some d') : d'.posted = d.posted ++ posts a := by
  cases a with
  | connection outcome =>
    cases hstep
    exact (List.append_nil _).symm
  | telemetry answer =>
    cases hstep
    have hposted : (ControlPage.updateTelemetry w d answer).posted = d.posted := by
      cases answer with
      | none => rfl
      | some data =>
        unfold ControlPage.updateTelemetry
        simp only
        split_ifs <;> rfl
    rw [hposted]
    exact (List.append_nil _).symm
  | click click =>
    obtain ⟨b, hb, hd'⟩ := Option.map_eq_some_iff.mp hstep
    have hvalue : buttonValues[click.button]? = some b.value := by
      rw [← hd.values, List.getElem?_map, hb, Option.map_some]
    rw [← hd', posts, hvalue]
    rfl
  | answered click =>
    obtain ⟨_, hd'⟩ := Option.ite_none_right_eq_some.mp hstep
    rw [← Option.some.inj hd']
    exact (List.append_nil _).symm
  | refused click =>
    obtain ⟨_, hd'⟩ := Option.ite_none_right_eq_some.mp hstep
    rw [← Option.some.inj hd']
    exact (List.append_nil _).symm

theorem posted_run {acts : List Action} {d' : DroneControl} (hd : Coherent w.numbers d)
    (hrun : run (step w) d acts = some d') : d'.posted = d.posted ++ acts.flatMap posts := by
  induction acts generalizing d with
  | nil =>
    rw [run_nil, Option.some.injEq] at hrun
    rw [hrun, List.flatMap_nil, List.append_nil]
  | cons a rest ih =>
    obtain ⟨u, hu, hrest⟩ := Option.bind_eq_some_iff.mp hrun
    rw [ih (coherent_step d a u hd hu) hrest, posted_step hd hu, List.append_assoc,
      List.flatMap_cons]

theorem posts_known (click : Click) :
    ∀ command ∈ posts (.click click), Known command ↔ click.onIcon = false := by
  have hvalues : ∀ value ∈ buttonValues, Known value := by decide
  have hundefined : ¬ Known "undefined" := by decide
  intro command hcommand
  obtain ⟨value, hvalue, hcommand⟩ := List.mem_map.mp hcommand
  rw [← hcommand]
  cases hicon : click.onIcon with
  | true => simp [hundefined]
  | false => simp [hvalues value (List.mem_of_getElem? (Option.mem_toList.mp hvalue))]

/-- After every run the elements show the telemetry that is held, the container
shows the message of the last failure unless a telemetry update has succeeded
since, a button is highlighted exactly since the last answer with its mode or to a click on
it that no answer with another mode follows, and each click has posted its
command: one the drone knows, unless it hit the icon. -/
theorem shown_throughout (w : Surroundings) (shown : String) (acts : List Action)
    (d : DroneControl) (hrun : run (step w) (start shown) acts = some d) :
    Coherent w.numbers d ∧
    (∀ m, d.page.error = some m ↔
      Since (step w) (Fails w m) (Replaces w m) (start shown) acts) ∧
    (∀ i command, buttonValues[i]? = some command →
      (Highlighted i d ↔
        Since (step w) (Highlights i command) (Unlights command) (start shown) acts)) ∧
    d.posted = acts.flatMap posts ∧
    ∀ click, .click click ∈ acts →
      ∀ command ∈ posts (.click click), Known command ↔ click.onIcon = false := by
  have hstart := coherent_start w.numbers shown
  refine ⟨run_invariant coherent_step hstart hrun, fun m => ?_, fun i command hi => ?_,
    posted_run hstart hrun, fun click _ => posts_known click⟩
  · have hnone : (start shown).page.error ≠ some m := by simp [start, TelemetryPage.initial]
    rw [holds_iff_since (P := fun d => d.page.error = some m) coherent_step
      (fun s a t _ => error_step m s a t) hstart hrun]
    simp [hnone]
  · have hplain : ¬ Highlighted i (start shown) := by
      rintro ⟨b, hb, hprimary⟩
      have hall : ∀ b ∈ indexElements.commandButtons, ¬ b.primary = true := by decide
      exact hall b (List.mem_of_getElem? hb) hprimary
    rw [holds_iff_since coherent_step (highlighted_step hi) hstart hrun]
    simp [hplain]

def surroundings : Surroundings := ⟨strict, ⟨fun x => Nat.toDigits 10 x.num.natAbs⟩, fun _ => false⟩

/-- The drone holds its position; one click hits the icon of the button for landing,
the next one the button, and then a poll fails. -/
def landingClicks : List Action :=
  [.telemetry (some ⟨some ⟨0, some (39 / 2), some (-793 / 8), some 12⟩, some ⟨some 55, some 0⟩,
      some "HOLD", some true, some true⟩),
    .click ⟨1, true⟩, .click ⟨1, false⟩, .answered ⟨1, false⟩, .answered ⟨1, true⟩, .telemetry none]

def landingPage : DroneControl :=
  (run (step surroundings) (start "Never") landingClicks).getD (start "Never")

/-- What the click on the icon posts is not a command. -/
theorem landing_clicks_shown :
    Coherent surroundings.numbers landingPage ∧
    landingPage.page.error = some "Error al obtener telemetría" ∧
    Highlighted 0 landingPage ∧ Highlighted 1 landingPage ∧
    Since (step surroundings) (Highlights 0 "loiter") (Unlights "loiter") (start "Never")
      landingClicks ∧
    landingPage.posted = ["undefined", "land"] ∧ ¬ Known "undefined" ∧ Known "land" := by
  have hknown : ¬ Known "undefined" ∧ Known "land" := by decide
  have hfirst : Highlighted 0 landingPage := ⟨_, rfl, rfl⟩
  have hsecond : Highlighted 1 landingPage := ⟨_, rfl, rfl⟩
  obtain ⟨hcoherent, _, hhighlighted, hposted, _⟩ :=
    shown_throughout surroundings "Never" landingClicks landingPage rfl
  exact ⟨hcoherent, rfl, hfirst, hsecond, (hhighlighted 0 "loiter" rfl).mp hfirst, hposted, hknown⟩

end Cherum.ShownControls
