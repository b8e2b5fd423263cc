import Cherum.AppLifecycle
import Cherum.LastTelemetry
import Cherum.TelemetryWire

/-! The server while telemetry.py posts the events of the drone line by line and
anyone sends any other requests in between. The teardown after each request
closes the client and flushes; of the store a run of requests is a run of one
`store_*` call and one flush for each report, and one flush for each other request. -/

namespace Cherum.ServedReports
open AppLifecycle (Arrival createApp serve serveAll)
open PythonJson RecordedSeries StoreRuns LastTelemetry
open TelemetryEvents TelemetryRoutes TelemetryStore TelemetryWire

/-- A request: the line of an event, posted by telemetry.py with its token, or
any other. -/
inductive Served
  | report (e : Event) (now : ℕ) (call closing : Call)
  | request (a : Arrival)

def Served.closing : Served → Call
  | .report _ _ _ closing => closing
  | .request a => a.closing

section Refinement

variable (texts : Texts) (loads : List Char → Option Json)

def Served.arrival : Served → Arrival
  | .report e now call closing =>
    ⟨.postTelemetry true (requestBody loads (line texts e)), now, call, closing⟩
  | .request a => a

def operation (texts : Texts) : Event → Operation
  | .armed armed => .storeArmed (.bool armed) (.str "default")
  | .inAir inAir => .storeInAir (.bool inAir) (.str "default")
  | .position latitude longitude altitude =>
    .storePosition (readBack texts latitude) (readBack texts longitude) (readBack texts altitude)
      (.str "default")
  | .battery id remainingPercent =>
    .storeBattery (.int id.toNat) (.float remainingPercent) (.str "default")
  | .flightMode mode => .storeFlightMode (.str mode) (.str "default")

def Served.calls (texts : Texts) : Served → List (Operation × Call)
  | .report e _ call closing => [(operation texts e, call), (.flush, closing)]
  | .request a => [(.flush, a.closing)]

def reports (served : List Served) : List (Event × Call) :=
  served.filterMap fun
    | .report e _ call _ => some (e, call)
    | .request _ => none

def StoresNothing : AppLifecycle.Request → Prop
  | .postTelemetry authorised body => storeCall texts authorised body = none
  | _ => True

/-- Reports of events that arrive as they were sent, and other requests that store
nothing. -/
def Sound : Served → Prop
  | .report e _ _ _ => Emitted texts e ∧ loads (line texts e) = some (message e)
  | .request a => StoresNothing texts a.request

def reopened (s : Store) : Store := { s with clientClosed := false }

variable {texts loads}

theorem reopened_flush (call : Call) (s : Store) :
    reopened (flush call s) = flush call (reopened s) := by
  unfold flush reopened
  cases call.result <;> split_ifs <;> rfl

theorem reopened_append (point : Point) (call : Call) (s : Store) :
    reopened (append point call s) = append point call (reopened s) := by
  unfold append
  rw [checkFlush_eq, checkFlush_eq]
  by_cases h : Due call { s with buffer := s.buffer ++ [point] }
  · have hreopened : Due call { reopened s with buffer := s.buffer ++ [point] } := h
    rw [if_pos h, reopened_flush]
    exact (if_pos hreopened).symm
  · have hreopened : ¬ Due call { reopened s with buffer := s.buffer ++ [point] } := h
    rw [if_neg h]
    exact (if_neg hreopened).symm

theorem point?_operation (e : Event) (call : Call) :
    point? texts (operation texts e, call) = some (recorded (readBack texts) call.stamp e) := by
  cases e <;> rfl

theorem reopened_serve {a : Served} (h : Sound texts loads a) (app : AppLifecycle.App) :
    reopened (serve texts app (a.arrival texts loads)).store =
      performAll texts (reopened app.store) (a.calls texts) := by
  have hclose : ∀ call s, reopened (close call s) = flush call (reopened s) :=
    fun call s => reopened_flush call s
  cases a with
  | report e now call closing =>
    have hpost : (postTelemetry texts true (requestBody loads (line texts e)) call app.store).2 =
        append (recorded (readBack texts) call.stamp e) call app.store := by
      simp only [requestBody, h.2, postTelemetry, if_true, lacksType_message, dispatch_message h.1]
    simp only [serve, AppLifecycle.handle, Served.arrival, hpost, hclose, reopened_append,
      Served.calls, performAll, List.foldl_cons, List.foldl_nil]
    rw [perform_store (point?_operation e call)]
    rfl
  | request a =>
    obtain ⟨request, now, call, closing⟩ := a
    have hstore : (AppLifecycle.handle texts ⟨request, now, call, closing⟩ app.db app.store).2.2 =
        app.store := by
      cases request with
      | postTelemetry authorised body =>
        have hnone : storeCall texts authorised body = none := h
        simp only [AppLifecycle.handle, postTelemetry_store, hnone]
      | _ => rfl
    simp only [serve, Served.arrival, hstore, hclose]
    rfl

theorem reopened_serveAll {served : List Served} (h : ∀ a ∈ served, Sound texts loads a)
    (app : AppLifecycle.App) :
    reopened (serveAll texts app (served.map (Served.arrival texts loads))).store =
      performAll texts (reopened app.store) (served.flatMap (Served.calls texts)) := by
  induction served generalizing app with
  | nil => rfl
  | cons a rest ih =>
    obtain ⟨ha, hrest⟩ := List.forall_mem_cons.mp h
    have hserve : serveAll texts app ((a :: rest).map (Served.arrival texts loads)) =
        serveAll texts (serve texts app (a.arrival texts loads))
          (rest.map (Served.arrival texts loads)) := rfl
    rw [hserve, ih hrest, reopened_serve ha, List.flatMap_cons, performAll, performAll, performAll,
      List.foldl_append]

theorem created_calls (served : List Served) :
    created texts (served.flatMap (Served.calls texts)) =
      (reports served).map fun r => recorded (readBack texts) r.2.stamp r.1 := by
  induction served with
  | nil => rfl
  | cons a rest ih =>
    rw [List.flatMap_cons, created, List.filterMap_append]
    have hrest : (rest.flatMap (Served.calls texts)).filterMap (point? texts) =
        (reports rest).map fun r => recorded (readBack texts) r.2.stamp r.1 := ih
    rw [hrest]
    cases a with
    | report e now call closing =>
      have hfirst : ((Served.report e now call closing).calls texts).filterMap (point? texts) =
          [recorded (readBack texts) call.stamp e] := by
        cases e <;> rfl
      rw [hfirst]
      rfl
    | request a => rfl

end Refinement

def batches (texts : Texts) (loads : List Char → Option Json) (db : CommandServer.Database) (now : ℤ)
    (served : List Served) : List (List Point) :=
  (serveAll texts (createApp db now) (served.map (Served.arrival texts loads))).store.written

/-- The reports carry increasing times, the batches arrive in order, the last
flush succeeded, and all of it was within the day before the question. -/
structure Settled (texts : Texts) (loads : List Char → Option Json) (db : CommandServer.Database)
    (now : ℤ) (served : List Served) (arrivals : List ℤ) (asked : ℤ) : Prop where
  stamps : (reports served).Pairwise fun a b => a.2.stamp < b.2.stamp
  requests : arrivals.length = (batches texts loads db now served).length
  order : arrivals.Pairwise (· ≤ ·)
  flushed : ∀ a ∈ served.getLast?, a.closing.result = .returned
  stamped : ∀ r ∈ reports served, asked - day ≤ r.2.stamp ∧ r.2.stamp < asked
  arrived : ∀ t ∈ arrivals, asked - day ≤ t ∧ t < asked

section Database

variable {texts : Texts} {loads : List Char → Option Json} {db : CommandServer.Database}
variable {now asked : ℤ} {served : List Served} {arrivals : List ℤ}

theorem batches_eq (hsound : ∀ a ∈ served, Sound texts loads a) :
    batches texts loads db now served =
      (performAll texts (new now) (served.flatMap (Served.calls texts))).written := by
  have hwritten := congrArg Store.written (reopened_serveAll hsound (createApp db now))
  exact hwritten

theorem flush_returned {call : Call} {s : Store} (h : call.result = .returned) :
    (flush call s).buffer = [] := by
  unfold flush
  rw [h]
  split_ifs with hbuffer
  · exact List.isEmpty_iff.mp hbuffer
  · rfl

theorem buffer_calls (h : ∀ a ∈ served.getLast?, a.closing.result = .returned) :
    (performAll texts (new now) (served.flatMap (Served.calls texts))).buffer = [] := by
  induction served using List.reverseRecOn with
  | nil => rfl
  | append_singleton earlier a _ =>
    have hclosing : a.closing.result = .returned := h a (by simp)
    have hlast : ∃ calls, a.calls texts = calls ++ [(.flush, a.closing)] := by
      cases a with
      | report e now call closing => exact ⟨[(operation texts e, call)], rfl⟩
      | request a => exact ⟨[], rfl⟩
    obtain ⟨calls, hcalls⟩ := hlast
    rw [List.flatMap_append, List.flatMap_singleton, hcalls, ← List.append_assoc, performAll,
      List.foldl_append, List.foldl_cons, List.foldl_nil]
    exact flush_returned hclosing

theorem stamped_calls (h : (reports served).Pairwise fun a b => a.2.stamp < b.2.stamp) :
    Stamped texts (served.flatMap (Served.calls texts)) := by
  rw [reports, List.pairwise_filterMap] at h
  refine List.pairwise_flatMap.mpr ⟨fun a _ => ?_, h.imp fun {a b} hab x hx y hy hsx hsy => ?_⟩
  · cases a with
    | report e now call closing => simp [Served.calls, point?]
    | request a => simp [Served.calls]
  · have hreport : ∀ {c : Served} {z : Operation × Call}, z ∈ c.calls texts → (point? texts z).isSome →
        ∃ e now call closing, c = .report e now call closing ∧ z.2 = call := by
      intro c z hz hpoint
      cases c with
      | report e now call closing =>
        simp only [Served.calls, List.mem_cons, List.not_mem_nil, or_false] at hz
        rcases hz with hz | hz
        · exact ⟨e, now, call, closing, rfl, by rw [hz]⟩
        · rw [hz] at hpoint
          cases hpoint
      | request a =>
        rw [List.mem_singleton.mp hz] at hpoint
        cases hpoint
    obtain ⟨e, _, call, _, ha, hcall⟩ := hreport hx hsx
    obtain ⟨e', _, call', _, hb, hcall'⟩ := hreport hy hsy
    rw [hcall, hcall']
    exact hab (e, call) (by rw [ha]) (e', call') (by rw [hb])

theorem Settled.written (h : Settled texts loads db now served arrivals asked)
    (hsound : ∀ a ∈ served, Sound texts loads a) :
    Written texts now (served.flatMap (Served.calls texts)) arrivals asked where
  clock := stamped_calls h.stamps
  requests := by rw [h.requests, batches_eq hsound]
  order := h.order
  buffer := buffer_calls h.flushed
  recent e he := by
    obtain ⟨a, ha, hae⟩ := List.mem_map.mp he
    have hlength : arrivals.length =
        (performAll texts (new now) (served.flatMap (Served.calls texts))).written.length := by
      rw [h.requests, batches_eq hsound]
    have hpoint : a.point ∈ created texts (served.flatMap (Served.calls texts)) := by
      rw [← written_append_buffer texts now, buffer_calls h.flushed, List.append_nil,
        ← arrived_points hlength]
      exact List.mem_map_of_mem ha
    rw [created_calls] at hpoint
    obtain ⟨⟨event, call⟩, hr, hrecorded⟩ := List.mem_map.mp hpoint
    rw [← hae, Arrived.entry, ← hrecorded]
    cases event with
    | armed armed => exact h.arrived _ (arrival_mem ha)
    | inAir inAir => exact h.arrived _ (arrival_mem ha)
    | _ => exact h.stamped _ hr

/-- The events of one kind that were reported, and the last of them. -/
def measurement : Event → String
  | .armed _ => "armed"
  | .inAir _ => "in_air"
  | .position _ _ _ => "position"
  | .battery _ _ => "battery"
  | .flightMode _ => "flight_mode"

theorem isFor_recorded (m : String) (stamp : ℤ) (e : Event) :
    isFor m "default" (pointSeries texts (recorded (readBack texts) stamp e)) =
      decide (measurement e = m) := by
  rw [Bool.eq_iff_iff, isFor, decide_eq_true_eq, decide_eq_true_eq]
  cases e <;> simp [pointSeries, recorded, tagTexts, measurement, pyStr]

theorem lastStored_reports (m : String) :
    lastStored texts m "default" (created texts (served.flatMap (Served.calls texts))) =
      ((reports served).filter fun r => measurement r.1 = m).getLast?.map
        fun r => recorded (readBack texts) r.2.stamp r.1 := by
  rw [created_calls, lastStored, lastOf, List.filter_map, List.getLast?_map]
  congr 2
  refine List.filter_congr fun r _ => ?_
  exact isFor_recorded m r.2.stamp r.1

end Database

end Cherum.ServedReports
