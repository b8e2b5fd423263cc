import Cherum.CommandServer
import Cherum.TelemetryRoutes

/-! One application of `create_app` over a whole history of requests. The store
is created once, with the application, while `telemetry_store.close` is
registered with `teardown_appcontext` and so runs after every single request. -/

namespace Cherum.AppLifecycle
open CommandServer (Database)
open HttpMessages PythonJson TelemetryRoutes TelemetryStore

inductive Request
  /-- A route that uses neither the commands nor the store, with its answer. -/
  | other (response : Response)
  | command (request : CommandServer.Request)
  | lastTelemetry (results : LastResults)
  | getTelemetry (result : QueryResult)
  | postTelemetry (authorised : Bool) (body : RequestBody)

/-- A request with the clock readings and write results of its handler and of
the flush in its teardown. -/
structure Arrival where
  request : Request
  now : ℕ
  call : Call
  closing : Call

inductive Event
  | used
  | closed
  deriving DecidableEq, Repr

structure App where
  db : Database
  store : Store
  /-- Uses of the store by handlers and executions of its `close`, in order. -/
  log : List Event
  answered : List (Request × Response)

def createApp (db : Database) (now : ℤ) : App := ⟨db, TelemetryStore.new now, [], []⟩

def usesStore (texts : Texts) : Request → Bool
  | .lastTelemetry _ => true
  | .getTelemetry _ => true
  | .postTelemetry authorised body => (storeCall texts authorised body).isSome
  | _ => false

def handle (texts : Texts) (a : Arrival) (db : Database) (s : Store) :
    Response × Database × Store :=
  match a.request with
  | .other response => (response, db, s)
  | .command request =>
    ((CommandServer.serve db a.now request).1, (CommandServer.serve db a.now request).2, s)
  | .lastTelemetry results => (lastTelemetry results, db, s)
  | .getTelemetry result => (getTelemetry result s, db, s)
  | .postTelemetry authorised body =>
    ((postTelemetry texts authorised body a.call s).1, db,
      (postTelemetry texts authorised body a.call s).2)

def events (texts : Texts) (a : Arrival) : List Event :=
  (if usesStore texts a.request then [.used] else []) ++ [.closed]

def serve (texts : Texts) (app : App) (a : Arrival) : App where
  db := (handle texts a app.db app.store).2.1
  store := close a.closing (handle texts a app.db app.store).2.2
  log := app.log ++ events texts a
  answered := app.answered ++ [(a.request, (handle texts a app.db app.store).1)]

def serveAll (texts : Texts) (app : App) (arrivals : List Arrival) : App :=
  arrivals.foldl (serve texts) app

/-- No use of the store follows one of its closes. -/
def NeverUsedClosed (log : List Event) : Prop :=
  log.Pairwise fun earlier later => earlier = .closed → later ≠ .used

instance (log : List Event) : Decidable (NeverUsedClosed log) :=
  inferInstanceAs (Decidable (log.Pairwise fun earlier later => earlier = .closed → later ≠ .used))

def QueriesAnswered (answered : List (Request × Response)) : Prop :=
  ∀ p ∈ answered, ∀ tables, p.1 = .getTelemetry (.ok tables) → p.2.status = 200

variable {texts : Texts}

theorem serveAll_log (app : App) (arrivals : List Arrival) :
    (serveAll texts app arrivals).log = app.log ++ arrivals.flatMap (events texts) := by
  induction arrivals generalizing app with
  | nil => simp [serveAll]
  | cons a rest ih =>
    have hserve : serveAll texts app (a :: rest) = serveAll texts (serve texts app a) rest := rfl
    rw [hserve, ih]
    simp [serve]

theorem mem_answered {app : App} {arrivals : List Arrival} {p : Request × Response}
    (hp : p ∈ (serveAll texts app arrivals).answered) :
    p ∈ app.answered ∨ ∃ a ∈ arrivals, p.1 = a.request := by
  induction arrivals generalizing app with
  | nil => exact .inl hp
  | cons a rest ih =>
    have hrest : p ∈ (serveAll texts (serve texts app a) rest).answered := hp
    cases ih hrest with
    | inl h =>
      cases List.mem_append.mp h with
      | inl h => exact .inl h
      | inr h =>
        rw [List.mem_singleton.mp h]
        exact .inr ⟨a, List.mem_cons_self, rfl⟩
    | inr h =>
      obtain ⟨b, hb, hrequest⟩ := h
      exact .inr ⟨b, List.mem_cons_of_mem a hb, hrequest⟩

def storedPosts (texts : Texts) (arrivals : List Arrival) : ℕ :=
  arrivals.countP fun a => match a.request with
    | .postTelemetry authorised body => (storeCall texts authorised body).isSome
    | _ => false

theorem serve_points (app : App) (a : Arrival) : ∃ added : List Point,
    (serve texts app a).store.points = app.store.points ++ added ∧
      added.length = storedPosts texts [a] := by
  obtain ⟨request, now, call, closing⟩ := a
  simp only [serve, close_points, storedPosts, List.countP_singleton]
  cases request with
  | postTelemetry authorised body => exact postTelemetry_points texts authorised body call app.store
  | _ => exact ⟨[], (List.append_nil _).symm, rfl⟩

/-- Closing after every request loses no point: each post that reaches the store
adds one, and nothing is taken away, whatever the writes return. -/
theorem serveAll_points (app : App) (arrivals : List Arrival) : ∃ added : List Point,
    (serveAll texts app arrivals).store.points = app.store.points ++ added ∧
      added.length = storedPosts texts arrivals := by
  induction arrivals generalizing app with
  | nil => exact ⟨[], (List.append_nil _).symm, rfl⟩
  | cons a rest ih =>
    obtain ⟨first, hfirst, hone⟩ := serve_points app a
    obtain ⟨later, hlater, hcount⟩ := ih (serve texts app a)
    refine ⟨first ++ later, ?_, ?_⟩
    · rw [← List.append_assoc, ← hfirst]
      exact hlater
    · rw [List.length_append, hone, hcount]
      simp only [storedPosts, ← List.countP_append, List.singleton_append]

theorem used_mem_events {a : Arrival} :
    .used ∈ events texts a ↔ usesStore texts a.request = true := by
  by_cases h : usesStore texts a.request = true <;> simp [events, h]

theorem neverUsedClosed_cons (a : Arrival) (rest : List Arrival) :
    NeverUsedClosed ((a :: rest).flatMap (events texts)) ↔
      ∀ b ∈ rest, ¬ usesStore texts b.request = true := by
  have hclosed : .closed ∈ events texts a := List.mem_append_right _ List.mem_cons_self
  have hfirst : (events texts a).Pairwise fun earlier later =>
      earlier = .closed → later ≠ .used := by
    by_cases h : usesStore texts a.request = true <;> simp [events, h]
  rw [NeverUsedClosed, List.flatMap_cons, List.pairwise_append]
  refine ⟨fun h b hb huses => ?_, fun h => ?_⟩
  · have hused : .used ∈ rest.flatMap (events texts) :=
      List.mem_flatMap.mpr ⟨b, hb, used_mem_events.mpr huses⟩
    exact h.2.2 .closed hclosed .used hused rfl rfl
  · have hunused : ∀ e ∈ rest.flatMap (events texts), e ≠ .used := by
      intro e he hused
      obtain ⟨b, hb, hevent⟩ := List.mem_flatMap.mp he
      exact h b hb (used_mem_events.mp (hused ▸ hevent))
    refine ⟨hfirst, ?_, fun _ _ e he _ => hunused e he⟩
    exact List.pairwise_of_forall_mem_list fun _ _ e he _ => hunused e he

theorem getTelemetry_status (tables : List (List FluxRecord)) (s : Store) :
    (getTelemetry (.ok tables) s).status = 200 ↔ s.clientClosed = false := by
  cases h : s.clientClosed <;> simp [getTelemetry, queryRecentPositions, h, failedToQuery, Except.map]

/-- Over every history of requests, the store is never used after a close, and
answers its queries, exactly when only the first request uses it. -/
theorem store_usable_iff (texts : Texts) (db : Database) (now : ℤ) (arrivals : List Arrival) :
    (NeverUsedClosed (serveAll texts (createApp db now) arrivals).log ∧
      QueriesAnswered (serveAll texts (createApp db now) arrivals).answered) ↔
      ∀ a ∈ arrivals.tail, ¬ usesStore texts a.request = true := by
  cases arrivals with
  | nil => simp [serveAll, createApp, NeverUsedClosed, QueriesAnswered]
  | cons a rest =>
    rw [serveAll_log]
    simp only [createApp, List.nil_append, List.tail_cons]
    rw [neverUsedClosed_cons, and_iff_left_iff_imp]
    intro h p hp tables hget
    have hrest : p ∈ (serveAll texts (serve texts (createApp db now) a) rest).answered := hp
    cases mem_answered hrest with
    | inl hp =>
      simp only [serve, createApp, List.nil_append, List.mem_singleton] at hp
      rw [hp] at hget ⊢
      change a.request = _ at hget
      simp only [handle, hget]
      exact (getTelemetry_status tables (TelemetryStore.new now)).mpr rfl
    | inr hp =>
      obtain ⟨b, hb, hrequest⟩ := hp
      rw [hget] at hrequest
      exact absurd (by rw [← hrequest]; rfl) (h b hb)

def twoQueries : List Arrival :=
  [⟨.getTelemetry (.ok []), 0, ⟨0, 0, 0, .returned⟩, ⟨0, 0, 0, .returned⟩⟩,
    ⟨.getTelemetry (.ok []), 0, ⟨1, 1, 1, .returned⟩, ⟨1, 1, 1, .returned⟩⟩]

/-- Two queries in a row: the second one meets a closed store and fails. -/
theorem second_query_fails :
    (serveAll noTexts (createApp Database.empty 0) twoQueries).log =
      [.used, .closed, .used, .closed] ∧
    ¬ NeverUsedClosed (serveAll noTexts (createApp Database.empty 0) twoQueries).log ∧
    ((serveAll noTexts (createApp Database.empty 0) twoQueries).answered.map
      fun p => p.2.status) = [200, 500] ∧
    ¬ QueriesAnswered (serveAll noTexts (createApp Database.empty 0) twoQueries).answered := by
  refine ⟨rfl, by decide, rfl, fun h => ?_⟩
  have hsecond := h (.getTelemetry (.ok []), failedToQuery) (.tail _ (.head _)) [] rfl
  exact absurd hsecond (by decide)

end Cherum.AppLifecycle
