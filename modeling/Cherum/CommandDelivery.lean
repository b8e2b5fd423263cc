import Cherum.ActionRuns
import Cherum.CommandPoller

/-! One poller, the server and any number of operators, interleaved at the
steps of the poller's loop: fetch, session on the pipe, acknowledgement. A
fetch may fail to connect, which makes the poller write the failsafe; a failed
acknowledgement or a broken pipe raises and ends the poller. The poller's token
is valid, and every accepted command carries a later second than the rows
before it. -/

namespace Cherum.CommandDelivery
open ActionRuns CommandServer CommandTable CommandPoller HttpMessages PythonJson

inductive Pc
  | polling
  | forwarding (byte : Option CommandByte) (id : Option Json)
  | acknowledging (id : Json)
  | ended

/-- One session of the poller on the pipe: the row it was for, none for the
failsafe, and the byte it wrote, none for a command the poller does not know. -/
structure Session where
  row : Option ℕ
  byte : Option CommandByte

structure Config where
  server : Server
  pc : Pc
  sessions : List Session
  /-- The ids of the rows that fetches were answered with. -/
  fetched : List ℕ

namespace Config

def initial : Config := ⟨start, .polling, [], []⟩

def table (c : Config) : Table := c.server.db.commands

def bytes (c : Config) : List CommandByte := c.sessions.filterMap Session.byte

def forwarded (c : Config) : List ℕ := c.sessions.filterMap Session.row

def written (c : Config) : List ℕ :=
  (c.sessions.filter fun s => s.byte.isSome).filterMap Session.row

end Config

inductive Action
  | post (command : String) (now : ℕ)
  | fetch (query : Option CommandRow) (now : ℕ)
  | fetchFails
  | write
  | writeFails
  | done (now : ℕ)
  | doneFails (committed : Bool) (now : ℕ)

/-- The parameter that `/done/<int:id>` reads from the URL built with `id`. -/
def routeId : Json → Option ℕ
  | .int (.ofNat n) => some n
  | _ => none

@[simp] theorem routeId_int (n : ℕ) : routeId (.int n) = some n := rfl

/-- Where the loop body stands once `poll` has returned or raised. -/
def afterPoll (onError : String) (exchange : Exchange) : Pc :=
  match poll exchange onError with
  | .error _ => .ended
  | .ok res =>
    match plan res with
    | .error _ => .ended
    | .ok .skip => .polling
    | .ok (.forward byte id) => .forwarding byte id

def afterDone (exchange : Exchange) : Pc :=
  match markDone exchange with
  | .error _ => .ended
  | .ok _ => .polling

def step (onError : String) (c : Config) : Action → Option Config
  | .post command now =>
    if ∀ r ∈ c.table.rows, r.createdAt < now then
      (CommandServer.step c.server (now, .command (some command))).map fun server =>
        { c with server }
    else none
  | .fetch query now =>
    match c.pc with
    | .polling =>
      (CommandServer.step c.server (now, .fetch true query)).map fun server =>
        { c with
          server
          pc := afterPoll onError (.answered (serve c.server.db now (.fetch true query)).1)
          fetched := c.fetched ++ (query.map CommandRow.id).toList }
    | _ => none
  | .fetchFails =>
    match c.pc with
    | .polling => some { c with pc := afterPoll onError .connectionError }
    | _ => none
  | .write =>
    match c.pc with
    | .forwarding byte none =>
      some { c with pc := .polling, sessions := c.sessions ++ [⟨none, byte⟩] }
    | .forwarding byte (some id) =>
      some { c with pc := .acknowledging id, sessions := c.sessions ++ [⟨routeId id, byte⟩] }
    | _ => none
  | .writeFails =>
    match c.pc with
    | .forwarding _ _ => some { c with pc := .ended }
    | _ => none
  | .done now =>
    match c.pc with
    | .acknowledging id =>
      match routeId id with
      | none => some { c with pc := .ended }
      | some n =>
        (CommandServer.step c.server (now, .done true n)).map fun server =>
          { c with server, pc := afterDone (.answered (serve c.server.db now (.done true n)).1) }
    | _ => none
  | .doneFails committed now =>
    match c.pc with
    | .acknowledging id =>
      match committed, routeId id with
      | true, some n =>
        (CommandServer.step c.server (now, .done true n)).map fun server =>
          { c with server, pc := afterDone .connectionError }
      | _, _ => some { c with pc := afterDone .connectionError }
    | _ => none

inductive Moves (onError : String) (c : Config) : Action → Config → Prop
  | post {command : String} {now : ℕ} {server : Server}
      (hlater : ∀ r ∈ c.table.rows, r.createdAt < now)
      (hserver : CommandServer.step c.server (now, .command (some command)) = some server) :
      Moves onError c (.post command now) { c with server }
  | fetch {query : Option CommandRow} {now : ℕ} {server : Server} (hpc : c.pc = .polling)
      (hserver : CommandServer.step c.server (now, .fetch true query) = some server) :
      Moves onError c (.fetch query now) { c with
        server
        pc := afterPoll onError (.answered (serve c.server.db now (.fetch true query)).1)
        fetched := c.fetched ++ (query.map CommandRow.id).toList }
  | fetchFails (hpc : c.pc = .polling) :
      Moves onError c .fetchFails { c with pc := afterPoll onError .connectionError }
  | writeFailsafe {byte : Option CommandByte} (hpc : c.pc = .forwarding byte none) :
      Moves onError c .write { c with pc := .polling, sessions := c.sessions ++ [⟨none, byte⟩] }
  | writeRow {byte : Option CommandByte} {id : Json} (hpc : c.pc = .forwarding byte (some id)) :
      Moves onError c .write
        { c with pc := .acknowledging id, sessions := c.sessions ++ [⟨routeId id, byte⟩] }
  | writeFails {byte : Option CommandByte} {id : Option Json} (hpc : c.pc = .forwarding byte id) :
      Moves onError c .writeFails { c with pc := .ended }
  | noRoute {now : ℕ} {id : Json} (hpc : c.pc = .acknowledging id) (hid : routeId id = none) :
      Moves onError c (.done now) { c with pc := .ended }
  | done {now n : ℕ} {id : Json} {server : Server} (hpc : c.pc = .acknowledging id)
      (hid : routeId id = some n)
      (hserver : CommandServer.step c.server (now, .done true n) = some server) :
      Moves onError c (.done now)
        { c with server, pc := afterDone (.answered (serve c.server.db now (.done true n)).1) }
  | doneLost {now n : ℕ} {id : Json} {server : Server} (hpc : c.pc = .acknowledging id)
      (hid : routeId id = some n)
      (hserver : CommandServer.step c.server (now, .done true n) = some server) :
      Moves onError c (.doneFails true now) { c with server, pc := afterDone .connectionError }
  | doneFails {committed : Bool} {now : ℕ} {id : Json} (hpc : c.pc = .acknowledging id) :
      Moves onError c (.doneFails committed now) { c with pc := afterDone .connectionError }

variable {onError : String} {c d : Config} {a : Action}

theorem moves_of_step (h : step onError c a = some d) : Moves onError c a d := by
  cases a with
  | post command now =>
    simp only [step] at h
    split at h
    · next hlater =>
      obtain ⟨server, hserver, hd⟩ := Option.map_eq_some_iff.mp h
      exact hd ▸ .post hlater hserver
    · cases h
  | fetch query now =>
    simp only [step] at h
    split at h
    · next hpc =>
      obtain ⟨server, hserver, hd⟩ := Option.map_eq_some_iff.mp h
      exact hd ▸ .fetch hpc hserver
    · cases h
  | fetchFails =>
    simp only [step] at h
    split at h
    · next hpc =>
      cases h
      exact .fetchFails hpc
    · cases h
  | write =>
    simp only [step] at h
    split at h
    · next hpc =>
      cases h
      exact .writeFailsafe hpc
    · next hpc =>
      cases h
      exact .writeRow hpc
    · cases h
  | writeFails =>
    simp only [step] at h
    split at h
    · next hpc =>
      cases h
      exact .writeFails hpc
    · cases h
  | done now =>
    simp only [step] at h
    split at h
    · next id hpc =>
      split at h
      · next hid =>
        cases h
        exact .noRoute hpc hid
      · next n hid =>
        obtain ⟨server, hserver, hd⟩ := Option.map_eq_some_iff.mp h
        exact hd ▸ .done hpc hid hserver
    · cases h
  | doneFails committed now =>
    simp only [step] at h
    split at h
    · next id hpc =>
      split at h
      · next n hid =>
        obtain ⟨server, hserver, hd⟩ := Option.map_eq_some_iff.mp h
        exact hd ▸ .doneLost hpc hid hserver
      · cases h
        exact .doneFails hpc
    · cases h

theorem fetch_enabled {query : Option CommandRow} {now : ℕ}
    (h : step onError c (.fetch query now) = some d) :
    c.pc = .polling ∧ c.table.Selects query := by
  cases moves_of_step h with
  | fetch hpc hserver =>
    obtain ⟨_, hquery, _⟩ := step_eq_some hserver
    exact ⟨hpc, hquery⟩

theorem commands_of_fetch {s t : Server} {query : Option CommandRow} {now : ℕ}
    (h : CommandServer.step s (now, .fetch true query) = some t) :
    t.db.commands = s.db.commands := by
  obtain ⟨_, _, ht⟩ := step_eq_some h
  rw [ht]
  rfl

theorem insert_of_command {s t : Server} {command : String} {now : ℕ}
    (h : CommandServer.step s (now, .command (some command)) = some t) :
    t.db.commands = s.db.commands ∨
      s.db.commands.insert command 0 now = some t.db.commands := by
  obtain ⟨_, _, ht⟩ := step_eq_some h
  rw [ht]
  rcases serve_commands s.db now (.command (some command)) with
    hsame | ⟨text, htext, _, hins⟩ | ⟨id, hid, _⟩
  · exact .inl hsame
  · simp only [Request.command.injEq, Option.some.injEq] at htext
    exact .inr (htext ▸ hins)
  · cases hid

theorem markDone_of_done {s t : Server} {n now : ℕ}
    (h : CommandServer.step s (now, .done true n) = some t) :
    t.db.commands = s.db.commands ∨ t.db.commands = s.db.commands.markDone n := by
  obtain ⟨_, _, ht⟩ := step_eq_some h
  rw [ht]
  rcases serve_commands s.db now (.done true n) with hsame | ⟨text, htext, _⟩ | ⟨id, hid, _, hmark⟩
  · exact .inl hsame
  · cases htext
  · simp only [Request.done.injEq, true_and] at hid
    exact .inr (hid ▸ hmark)

theorem step_table (h : step onError c a = some d) :
    d.table = c.table ∨
    (∃ command now, a = .post command now ∧ (∀ r ∈ c.table.rows, r.createdAt < now) ∧
      c.table.insert command 0 now = some d.table) ∨
    ∃ n, d.table = c.table.markDone n := by
  cases moves_of_step h with
  | post hlater hserver => cases insert_of_command hserver with
    | inl hsame => exact .inl hsame
    | inr hins => exact .inr (.inl ⟨_, _, rfl, hlater, hins⟩)
  | fetch _ hserver => exact .inl (commands_of_fetch hserver)
  | done _ _ hserver => exact (markDone_of_done hserver).imp_right fun hmark => .inr ⟨_, hmark⟩
  | doneLost _ _ hserver => exact (markDone_of_done hserver).imp_right fun hmark => .inr ⟨_, hmark⟩
  | _ => exact .inl rfl

end Cherum.CommandDelivery
