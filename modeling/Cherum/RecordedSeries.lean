import Cherum.StoreRuns
import Cherum.TimeSeries

/-! What the database keeps of a run of the store. A written batch is one
request, the requests arrive in the order in which they were made, and a point
without a time gets the arrival time of its request. A later point of the same
series and time replaces an earlier one, so a batch with two such points of one
series loses the first. -/

namespace Cherum.RecordedSeries
open PythonJson StoreRuns TelemetryStore TimeSeries

def tagTexts (texts : Texts) (point : Point) : List (String × String) :=
  point.tags.map fun tag => (tag.1, pyStr texts tag.2)

def pointSeries (texts : Texts) (point : Point) : String × List (String × String) :=
  (point.measurement, tagTexts texts point)

structure Arrived where
  point : Point
  arrival : ℤ

def Arrived.entry (texts : Texts) (a : Arrived) : Entry Json :=
  ⟨a.point.measurement, tagTexts texts a.point, a.point.fields, a.point.time.getD a.arrival⟩

def arrived : List (List Point) → List ℤ → List Arrived
  | batch :: batches, arrival :: arrivals =>
    batch.map (fun point => ⟨point, arrival⟩) ++ arrived batches arrivals
  | _, _ => []

def entries (texts : Texts) (batches : List (List Point)) (arrivals : List ℤ) :
    List (Entry Json) :=
  (arrived batches arrivals).map (Arrived.entry texts)

def seriesFields (texts : Texts) (series : String × List (String × String))
    (points : List Point) : List (List (String × Json)) :=
  (points.filter fun point => pointSeries texts point = series).map Point.fields

/-- The store calls read strictly increasing times. -/
def Stamped (texts : Texts) (history : List (Operation × Call)) : Prop :=
  history.Pairwise fun a b =>
    (point? texts a).isSome → (point? texts b).isSome → a.2.stamp < b.2.stamp

/-- No two points of one series that carry no time arrive at the same time; no
two of them are in one batch, then. -/
def ArrivedApart (texts : Texts) (batches : List (List Point)) (arrivals : List ℤ) : Prop :=
  (arrived batches arrivals).Pairwise fun a b =>
    pointSeries texts a.point = pointSeries texts b.point →
      a.point.time = none → b.point.time = none → a.arrival ≠ b.arrival

variable {texts : Texts}

theorem arrived_points {batches : List (List Point)} {arrivals : List ℤ}
    (h : arrivals.length = batches.length) :
    (arrived batches arrivals).map Arrived.point = batches.flatten := by
  induction batches generalizing arrivals with
  | nil => rfl
  | cons batch batches ih =>
    cases arrivals with
    | nil => cases h
    | cons arrival arrivals =>
      have hrest := ih (Nat.succ_injective h)
      rw [arrived, List.map_append, hrest, List.flatten_cons, List.map_map]
      exact congrArg (· ++ batches.flatten) (List.map_id batch)

theorem arrival_mem {batches : List (List Point)} {arrivals : List ℤ} {a : Arrived}
    (h : a ∈ arrived batches arrivals) : a.arrival ∈ arrivals := by
  induction batches generalizing arrivals with
  | nil => cases h
  | cons batch batches ih =>
    cases arrivals with
    | nil => cases h
    | cons arrival arrivals =>
      cases List.mem_append.mp h with
      | inl hbatch =>
        obtain ⟨point, _, hpoint⟩ := List.mem_map.mp hbatch
        rw [← hpoint]
        exact List.mem_cons_self
      | inr hrest => exact List.mem_cons_of_mem _ (ih hrest)

theorem arrived_ordered {batches : List (List Point)} {arrivals : List ℤ}
    (horder : arrivals.Pairwise (· ≤ ·)) :
    (arrived batches arrivals).Pairwise fun a b => a.arrival ≤ b.arrival := by
  induction batches generalizing arrivals with
  | nil => exact .nil
  | cons batch batches ih =>
    cases arrivals with
    | nil => exact .nil
    | cons arrival arrivals =>
      obtain ⟨hfirst, hrest⟩ := List.pairwise_cons.mp horder
      rw [arrived]
      refine List.pairwise_append.mpr ⟨?_, ih hrest, fun a ha b hb => ?_⟩
      · exact List.pairwise_map.mpr (List.pairwise_of_forall fun _ _ => le_rfl)
      · obtain ⟨point, _, hpoint⟩ := List.mem_map.mp ha
        rw [← hpoint]
        exact hfirst b.arrival (arrival_mem hb)

theorem untimed_iff {a : Operation × Call} {point : Point} (h : point? texts a = some point) :
    (point.time = none ↔ point.measurement = "armed" ∨ point.measurement = "in_air") ∧
      ∀ t, point.time = some t → t = a.2.stamp := by
  obtain ⟨operation, call⟩ := a
  cases operation <;> cases h <;>
    simp [armedPoint, inAirPoint, positionPoint, batteryPoint, flightModePoint]

theorem untimed_of_created {history : List (Operation × Call)} {point : Point}
    (h : point ∈ created texts history) :
    point.time = none ↔ point.measurement = "armed" ∨ point.measurement = "in_air" := by
  obtain ⟨a, _, ha⟩ := List.mem_filterMap.mp h
  exact (untimed_iff ha).1

theorem created_ordered {history : List (Operation × Call)} (hclock : Stamped texts history) :
    (created texts history).Pairwise fun p q =>
      ∀ s t, p.time = some s → q.time = some t → s < t := by
  refine List.pairwise_filterMap.mpr (hclock.imp fun {a b} hab p hp q hq s t hs ht => ?_)
  rw [(untimed_iff hp).2 s hs, (untimed_iff hq).2 t ht]
  exact hab (Option.isSome_of_eq_some hp) (Option.isSome_of_eq_some hq)

theorem written_append_buffer (texts : Texts) (now : ℤ) (history : List (Operation × Call)) :
    (performAll texts (new now) history).written.flatten ++
      (performAll texts (new now) history).buffer = created texts history :=
  performAll_points (new now) history

variable {now : ℤ} {history : List (Operation × Call)} {arrivals : List ℤ}

/-- What holds between two entries of one series, the first written earlier:
their times are in order, and equal only if both are arrival times. -/
theorem arrived_times (hclock : Stamped texts history)
    (hlength : arrivals.length = (performAll texts (new now) history).written.length)
    (horder : arrivals.Pairwise (· ≤ ·)) :
    (arrived (performAll texts (new now) history).written arrivals).Pairwise fun a b =>
      pointSeries texts a.point = pointSeries texts b.point →
        (a.entry texts).time ≤ (b.entry texts).time ∧
        ((a.entry texts).time = (b.entry texts).time ↔
          a.point.time = none ∧ b.point.time = none ∧ a.arrival = b.arrival) := by
  have hpoints := arrived_points hlength
  have hsublist : ((arrived (performAll texts (new now) history).written arrivals).map
      Arrived.point).Sublist (created texts history) := by
    rw [hpoints, ← written_append_buffer texts now history]
    exact List.sublist_append_left _ _
  have hstamps := List.pairwise_map.mp ((created_ordered hclock).sublist hsublist)
  have huntimed : ∀ a ∈ arrived (performAll texts (new now) history).written arrivals,
      (a.point.time = none ↔ a.point.measurement = "armed" ∨ a.point.measurement = "in_air") :=
    fun a ha => untimed_of_created (hsublist.subset (List.mem_map_of_mem ha))
  refine ((hstamps.and (arrived_ordered horder)).imp_of_mem fun {a b} ha hb hab hseries => ?_)
  have hmeasurement : a.point.measurement = b.point.measurement := congrArg Prod.fst hseries
  have hsame : a.point.time = none ↔ b.point.time = none := by
    rw [huntimed a ha, huntimed b hb, hmeasurement]
  unfold Arrived.entry
  cases htime : a.point.time with
  | none =>
    have htime' := hsame.mp htime
    simp only [htime', Option.getD_none]
    exact ⟨hab.2, by simp⟩
  | some s =>
    cases htime' : b.point.time with
    | none => simp [hsame.mpr htime'] at htime
    | some t =>
      have hlt := hab.1 s t htime htime'
      simp only [Option.getD_some]
      exact ⟨hlt.le, by simp [hlt.ne]⟩

theorem entries_ordered (hclock : Stamped texts history)
    (hlength : arrivals.length = (performAll texts (new now) history).written.length)
    (horder : arrivals.Pairwise (· ≤ ·)) :
    (entries texts (performAll texts (new now) history).written arrivals).Pairwise fun a b =>
      a.series = b.series → a.time ≤ b.time :=
  List.pairwise_map.mpr <|
    (arrived_times hclock hlength horder).imp fun h hseries => (h hseries).1

theorem entries_keys (hclock : Stamped texts history)
    (hlength : arrivals.length = (performAll texts (new now) history).written.length)
    (horder : arrivals.Pairwise (· ≤ ·)) :
    (entries texts (performAll texts (new now) history).written arrivals).Pairwise
        (fun a b => a.key ≠ b.key) ↔
      ArrivedApart texts (performAll texts (new now) history).written arrivals := by
  have htimes := arrived_times hclock hlength horder
  rw [entries, List.pairwise_map, ArrivedApart]
  constructor
  · intro h
    refine (h.and htimes).imp fun hab hseries hnone hnone' harrival => ?_
    exact hab.1 (Prod.ext hseries ((hab.2 hseries).2.mpr ⟨hnone, hnone', harrival⟩))
  · intro h
    refine (h.and htimes).imp fun hab hkey => ?_
    have hseries := Entry.series_of_key hkey
    obtain ⟨hnone, hnone', harrival⟩ := (hab.2 hseries).2.mp (congrArg Prod.snd hkey)
    exact hab.1 hseries hnone hnone' harrival

theorem seriesFields_written (series : String × List (String × String))
    (hlength : arrivals.length = (performAll texts (new now) history).written.length) :
    seriesFields texts series (performAll texts (new now) history).written.flatten =
      ((entries texts (performAll texts (new now) history).written arrivals).filter
        fun e => e.series = series).map Entry.fields := by
  rw [← arrived_points hlength, seriesFields, entries, List.filter_map, List.filter_map,
    List.map_map, List.map_map]
  rfl

/-- Every series of the database and the points of it that are still buffered
are exactly what was stored for it, one record a call, if and only if no two
points of one series without a time arrive at the same time. -/
theorem series_faithful_iff (texts : Texts) (now : ℤ) (history : List (Operation × Call))
    (arrivals : List ℤ) (hclock : Stamped texts history)
    (hlength : arrivals.length = (performAll texts (new now) history).written.length)
    (horder : arrivals.Pairwise (· ≤ ·)) :
    (∀ series,
      (readSeries series (record (entries texts
        (performAll texts (new now) history).written arrivals))).map Entry.fields ++
        seriesFields texts series (performAll texts (new now) history).buffer =
      seriesFields texts series (created texts history)) ↔
      ArrivedApart texts (performAll texts (new now) history).written arrivals := by
  rw [← entries_keys hclock hlength horder, ← pairwise_key_series]
  refine forall_congr' fun series => ?_
  have hsplit : seriesFields texts series (created texts history) =
      seriesFields texts series (performAll texts (new now) history).written.flatten ++
        seriesFields texts series (performAll texts (new now) history).buffer := by
    rw [← written_append_buffer texts now history, seriesFields, List.filter_append,
      List.map_append]
    rfl
  have htimes : ((entries texts (performAll texts (new now) history).written arrivals).filter
      fun e => e.series = series).Pairwise fun a b => a.time ≤ b.time := by
    refine ((entries_ordered hclock hlength horder).filter _).imp_of_mem fun {a b} ha hb hab => ?_
    have hseries : ∀ e ∈ (entries texts (performAll texts (new now) history).written
        arrivals).filter (fun e => e.series = series), e.series = series :=
      fun e he => of_decide_eq_true (List.mem_filter.mp he).2
    exact hab ((hseries a ha).trans (hseries b hb).symm)
  rw [hsplit, List.append_left_inj, seriesFields_written series hlength]
  exact readSeries_record htimes

def callAt (time : ℤ) : Call := ⟨time, time, time, .returned⟩

/-- Armed and disarmed a microsecond later, written together. -/
def armedTwice : List (Operation × Call) :=
  [(.storeArmed (.bool true) (.str "default"), callAt 1),
    (.storeArmed (.bool false) (.str "default"), callAt 2), (.flush, callAt 3)]

def armedApart : List (Operation × Call) :=
  [(.storeArmed (.bool true) (.str "default"), callAt 1), (.flush, callAt 2),
    (.storeArmed (.bool false) (.str "default"), callAt 3), (.flush, callAt 4)]

theorem series_faithful_apart :
    (performAll noTexts (new 0) armedApart).written =
      [[armedPoint (.bool true) (.str "default")], [armedPoint (.bool false) (.str "default")]] ∧
    ∀ series,
      (readSeries series (record (entries noTexts
        (performAll noTexts (new 0) armedApart).written [10, 20]))).map Entry.fields ++
        seriesFields noTexts series (performAll noTexts (new 0) armedApart).buffer =
      seriesFields noTexts series (created noTexts armedApart) := by
  have hclock : Stamped noTexts armedApart := by
    simp [Stamped, armedApart, callAt]
  have hwritten : (performAll noTexts (new 0) armedApart).written =
      [[armedPoint (.bool true) (.str "default")], [armedPoint (.bool false) (.str "default")]] :=
    rfl
  refine ⟨hwritten,
    (series_faithful_iff noTexts 0 armedApart [10, 20] hclock rfl (by decide)).mpr ?_⟩
  simp [hwritten, ArrivedApart, arrived]

/-- The series of the default drone keeps one of the two values. -/
theorem armed_overwritten : Stamped noTexts armedTwice ∧
    (performAll noTexts (new 0) armedTwice).written =
      [[armedPoint (.bool true) (.str "default"), armedPoint (.bool false) (.str "default")]] ∧
    (performAll noTexts (new 0) armedTwice).buffer = [] ∧
    ¬ ∀ series,
      (readSeries series (record (entries noTexts
        (performAll noTexts (new 0) armedTwice).written [10]))).map Entry.fields ++
        seriesFields noTexts series (performAll noTexts (new 0) armedTwice).buffer =
      seriesFields noTexts series (created noTexts armedTwice) := by
  have hwritten : (performAll noTexts (new 0) armedTwice).written =
      [[armedPoint (.bool true) (.str "default"), armedPoint (.bool false) (.str "default")]] :=
    rfl
  refine ⟨by simp [Stamped, armedTwice, callAt], hwritten, rfl, fun h => ?_⟩
  have hlengths := congrArg List.length (h ("armed", [("drone_id", "default")]))
  revert hlengths
  decide

end Cherum.RecordedSeries
