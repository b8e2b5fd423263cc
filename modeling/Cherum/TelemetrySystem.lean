import Cherum.AccessTokens
import Cherum.ServedReports
import Cherum.TelemetryPipe

/-! The whole way of the telemetry: the monitors and `queue_parser` on one side of
the telemetry pipe, telemetry.py and the server on the other. controller.py runs on
one thread, and `pub_telemetry` awaits nothing within a session; a system call of it
that fails ends the session. telemetry.py waits for the answer to a line before it
reads on; the post may not reach the server, and what the server answers is ignored. -/

namespace Cherum.TelemetrySystem
open AccessTokens (PyJwt Config Carries Incoming bearer authorised_iff)
open ActionRuns LineFraming PythonJson TelemetryEvents TelemetryRoutes TelemetryStore TelemetryWire
open AppLifecycle (App Arrival createApp serve)
open NamedPipe (Fifo)
open ServedReports (StoresNothing)
open TelemetryPipe (Message NoLoss WriterHolds)

/-- What the programs and the server were set up with. -/
structure Site where
  texts : Texts
  loads : List Char → Option Json
  jwt : PyJwt
  config : Config
  token : List Char
  valid : Carries jwt config (some (bearer token))

/-- An event of a monitor whose message fits a line and is read back from it. -/
structure Report (site : Site) where
  event : Event
  emitted : Emitted site.texts event
  loaded : site.loads (line site.texts event) = some (message event)

/-- What a post meets that reaches the server. -/
structure Visit where
  now : ℕ
  call : Call
  closing : Call

/-- A request of anyone else, which stores no telemetry. -/
structure Other (site : Site) where
  arrival : Arrival
  stores_nothing : StoresNothing site.texts arrival.request

variable {site : Site}

def Report.line (r : Report site) : List Char := TelemetryWire.line site.texts r.event

/-- What `queue_parser` puts on the JSON queue. -/
def Report.message (r : Report site) : Message :=
  .ofJson site.texts (TelemetryEvents.message r.event)

structure System (site : Site) where
  emitted : List (Report site)
  telemetryQueue : List (Report site)
  pipe : TelemetryPipe.Config
  app : App
  /-- For each line handed to `send_msg`, how the server was reached, if it was. -/
  posts : List (Option Visit)

def initial (site : Site) (db : CommandServer.Database) (now : ℤ) : System site :=
  ⟨[], [], TelemetryPipe.initial, createApp db now, []⟩

inductive Action (site : Site)
  /-- A monitor puts an event on the telemetry queue. -/
  | emit (r : Report site)
  | parse
  /-- A step on the pipe, with the fate of the post where it hands a line on. -/
  | pipe (a : TelemetryPipe.Action) (visit : Option Visit)
  /-- `os.open` of `pub_telemetry` fails. -/
  | openFails
  /-- Its next `os.write` fails, and writes nothing. -/
  | writeFails
  | request (other : Other site)

def post (site : Site) (app : App) (line : List Char) : Option Visit → App
  | none => app
  | some visit =>
    serve site.texts app (Incoming.arrival site.jwt site.config
      ⟨.postTelemetry (some (bearer site.token)) (requestBody site.loads line), visit.now,
        visit.call, visit.closing⟩)

def alone : TelemetryPipe.Action → Bool
  | .enqueue _ => false
  | _ => true

/-- The writer after a failed write: its message has left the queue before the text
was to be written, and the pipe is closed. -/
def abandon (c : TelemetryPipe.Config) : Option TelemetryPipe.Config :=
  match c.writer, c.jsonQueue with
  | .opened i, _ :: rest =>
    if i < 100 then some { c with pipe := c.pipe.closeWrite, writer := .idle, jsonQueue := rest }
    else none
  | .midway _ _, _ => some { c with pipe := c.pipe.closeWrite, writer := .idle }
  | _, _ => none

def step (s : System site) : Action site → Option (System site)
  | .emit r =>
    if s.pipe.writer = .idle then
      some { s with emitted := s.emitted ++ [r], telemetryQueue := s.telemetryQueue ++ [r] }
    else none
  | .parse =>
    match s.telemetryQueue with
    | [] => none
    | r :: rest =>
      (TelemetryPipe.step s.pipe (.enqueue r.message)).map fun pipe =>
        { s with pipe, telemetryQueue := rest }
  | .pipe a visit =>
    if alone a then
      (TelemetryPipe.step s.pipe a).map fun pipe =>
        match pipe.handed[s.pipe.handed.length]? with
        | none => { s with pipe }
        | some line => { s with pipe, app := post site s.app line visit, posts := s.posts ++ [visit] }
    else none
  | .openFails => if s.pipe.writer = .idle ∧ s.pipe.jsonQueue ≠ [] then some s else none
  | .writeFails => (abandon s.pipe).map fun pipe => { s with pipe }
  | .request other => some { s with app := serve site.texts s.app other.arrival }

section Pipe

variable {c d : TelemetryPipe.Config} {a : TelemetryPipe.Action}

theorem handed_cases (h : TelemetryPipe.step c a = some d) :
    d.handed = c.handed ∨ ∃ line, d.handed = c.handed ++ [line] := by
  have hsend : ∀ line, TelemetryPipe.send line c.handed = c.handed ∨
      ∃ more, TelemetryPipe.send line c.handed = c.handed ++ [more] := by
    intro line
    by_cases hline : line = []
    · exact .inl (if_pos hline)
    · exact .inr ⟨line, if_neg hline⟩
  cases TelemetryPipe.moves_of_step h with
  | fetchEof => exact hsend _
  | takeLine => exact hsend _
  | _ => exact .inl rfl

/-- The messages of the JSON queue and those that were taken from it, in order. -/
def parsed (c : TelemetryPipe.Config) : List Message :=
  c.written ++ (match c.writer with | .midway _ message => [message] | _ => []) ++ c.jsonQueue

theorem parsed_enqueue {message : Message}
    (h : TelemetryPipe.step c (.enqueue message) = some d) :
    parsed d = parsed c ++ [message] := by
  cases TelemetryPipe.moves_of_step h
  simp [parsed]

theorem parsed_alone (ha : alone a = true) (h : TelemetryPipe.step c a = some d) :
    parsed d = parsed c := by
  cases TelemetryPipe.moves_of_step h with
  | enqueue => cases ha
  | writerOpen hidle => simp [parsed, hidle]
  | writeText hwriter hqueue => simp [parsed, hwriter, hqueue]
  | writeNewline hwriter => simp [parsed, hwriter]
  | writerClose hwriter => simp [parsed, hwriter]
  | _ => rfl

end Pipe

inductive Moves (s : System site) : Action site → System site → Prop
  | emit (r : Report site) : Moves s (.emit r)
      { s with emitted := s.emitted ++ [r], telemetryQueue := s.telemetryQueue ++ [r] }
  | parse {r : Report site} {rest : List (Report site)} {pipe : TelemetryPipe.Config}
      (hqueue : s.telemetryQueue = r :: rest)
      (hpipe : TelemetryPipe.step s.pipe (.enqueue r.message) = some pipe) :
      Moves s .parse { s with pipe, telemetryQueue := rest }
  | pipe {a : TelemetryPipe.Action} {visit : Option Visit} {pipe : TelemetryPipe.Config}
      (halone : alone a = true) (hpipe : TelemetryPipe.step s.pipe a = some pipe)
      (hhanded : pipe.handed = s.pipe.handed) : Moves s (.pipe a visit) { s with pipe }
  | post {a : TelemetryPipe.Action} {visit : Option Visit} {pipe : TelemetryPipe.Config}
      {line : List Char} (halone : alone a = true)
      (hpipe : TelemetryPipe.step s.pipe a = some pipe)
      (hhanded : pipe.handed = s.pipe.handed ++ [line]) : Moves s (.pipe a visit)
      { s with pipe, app := post site s.app line visit, posts := s.posts ++ [visit] }
  | openFails : Moves s .openFails s
  | writeFails {pipe : TelemetryPipe.Config} (hpipe : abandon s.pipe = some pipe) :
      Moves s .writeFails { s with pipe }
  | request (other : Other site) :
      Moves s (.request other) { s with app := serve site.texts s.app other.arrival }

variable {s t : System site} {a : Action site}

theorem moves_of_step (h : step s a = some t) : Moves s a t := by
  cases a with
  | emit r =>
    simp only [step, Option.ite_none_right_eq_some, Option.some.injEq] at h
    exact h.2 ▸ .emit r
  | parse =>
    simp only [step] at h
    split at h
    · cases h
    · next hqueue =>
      obtain ⟨pipe, hpipe, ht⟩ := Option.map_eq_some_iff.mp h
      exact ht ▸ .parse hqueue hpipe
  | pipe a visit =>
    simp only [step, Option.ite_none_right_eq_some] at h
    obtain ⟨halone, h⟩ := h
    obtain ⟨pipe, hpipe, ht⟩ := Option.map_eq_some_iff.mp h
    rcases handed_cases hpipe with hhanded | ⟨line, hhanded⟩
    · rw [hhanded, List.getElem?_eq_none le_rfl] at ht
      exact ht ▸ .pipe halone hpipe hhanded
    · rw [hhanded, List.getElem?_concat_length] at ht
      exact ht ▸ .post halone hpipe hhanded
  | openFails =>
    simp only [step, Option.ite_none_right_eq_some, Option.some.injEq] at h
    exact h.2 ▸ .openFails
  | writeFails =>
    obtain ⟨pipe, hpipe, ht⟩ := Option.map_eq_some_iff.mp h
    exact ht ▸ .writeFails hpipe
  | request other =>
    rw [step, Option.some.injEq] at h
    exact h ▸ .request other

/-- Every event is a message in order, in the pipe's programs or still to be parsed,
and every line handed on was posted. -/
structure Joined (s : System site) : Prop where
  in_order : s.emitted.map Report.message =
    parsed s.pipe ++ s.telemetryQueue.map Report.message
  posts : s.posts.length = s.pipe.handed.length

def Writes : Action site → Prop
  | .writeFails => False
  | _ => True

theorem joined_step (hs : Joined s) (ha : Writes a) (h : step s a = some t) : Joined t := by
  cases moves_of_step h with
  | emit r =>
    refine ⟨?_, hs.posts⟩
    simp only [List.map_append, hs.in_order, List.append_assoc]
  | parse hqueue hpipe =>
    refine ⟨?_, ?_⟩
    · rw [parsed_enqueue hpipe, hs.in_order, hqueue]
      simp
    · cases TelemetryPipe.moves_of_step hpipe
      exact hs.posts
  | pipe halone hpipe hhanded =>
    refine ⟨?_, ?_⟩
    · rw [parsed_alone halone hpipe]
      exact hs.in_order
    · rw [hhanded]
      exact hs.posts
  | post halone hpipe hhanded =>
    refine ⟨?_, ?_⟩
    · rw [parsed_alone halone hpipe]
      exact hs.in_order
    · rw [hhanded, List.length_append, List.length_append, hs.posts]
      rfl
  | openFails => exact hs
  | writeFails => exact ha.elim
  | request other => exact ⟨hs.in_order, hs.posts⟩

/-- The events that are not posted, by where their messages are. -/
theorem Joined.drop (hs : Joined s) {n : ℕ} (hn : n ≤ s.pipe.written.length) :
    (s.emitted.drop n).map Report.message =
      s.pipe.written.drop n ++
        (match s.pipe.writer with | .midway _ message => [message] | _ => []) ++
        s.pipe.jsonQueue ++ s.telemetryQueue.map Report.message := by
  rw [List.map_drop, hs.in_order, parsed, List.append_assoc, List.append_assoc,
    List.drop_append_of_le_length hn]
  simp only [List.append_assoc]

theorem Joined.take (hs : Joined s) {n : ℕ} (hn : n ≤ s.pipe.written.length) :
    (s.emitted.take n).map Report.message = s.pipe.written.take n := by
  rw [List.map_take, hs.in_order, parsed, List.append_assoc, List.append_assoc,
    List.take_append_of_le_length hn]

/-- No write fails, the reader closes with an empty buffer, and no end that is the last
one is closed over unread data. -/
def Kept (s : System site) : Action site → Prop
  | .writeFails => False
  | .pipe .writerClose _ => s.pipe.pipe.CloseKeeps (s.pipe.pipe.readers + (s.pipe.pipe.writers - 1))
  | .pipe .readerClose _ =>
    s.pipe.buffer = [] ∧ s.pipe.pipe.CloseKeeps (s.pipe.pipe.readers - 1 + s.pipe.pipe.writers)
  | _ => True

def flightSite : Site where
  texts := halfTexts
  loads := flightLoads
  jwt := AccessTokens.oneToken
  config := AccessTokens.cherumConfig
  token := ['t']
  valid := AccessTokens.carries_oneToken

def armedReport : Report flightSite := ⟨.armed true, trivial, flight_loads _ (.head _)⟩

def armedRun : List (Action flightSite) :=
  [.emit armedReport, .parse, .pipe .readerOpen none, .pipe .writerOpen none, .pipe .writeText none,
    .pipe .writeNewline none, .pipe .writerClose none, .pipe .fetch none,
    .pipe .takeLine (some ⟨0, ⟨1, 1, 1, .returned⟩, ⟨2, 2, 2, .returned⟩⟩)]

example : (run step (initial flightSite CommandServer.Database.empty 0) armedRun).map
    (fun s => (s.app.store.points.length, s.app.answered.map fun p => p.2.status)) =
      some (1, [200]) := by
  decide +kernel

end Cherum.TelemetrySystem
