import Cherum.CommandTable
import Cherum.HttpMessages

/-! The routes `/command`, `/fetch` and `/done` over the SQLite tables. The
answer of the `SELECT` in `/fetch` is an argument of the handler: which row
comes first among equal `created_at` is the engine's choice. `authorised` says
whether `jwt.get_and_validate_token()` returned a token. -/

namespace Cherum.CommandServer
open CommandTable HttpMessages PythonJson

structure Database where
  commands : Table
  /-- `created_at` of the rows of `pings`, in insertion order. -/
  pings : List ℕ

def Database.empty : Database := ⟨Table.empty, []⟩

/-- `POST /command` at clock reading `now`; `form` is `request.form.get("command")`. -/
def command (form : Option String) (now : ℕ) (db : Database) : Response × Database :=
  match form with
  | none => (redirectHome, db)
  | some text =>
    if text = "" then (redirectHome, db)
    else
      match db.commands.insert text 0 now with
      | some commands => (redirectHome, { db with commands })
      | none => (internalServerError, db)

def fetchBody : Option CommandRow → Json
  | none => .obj [("id", .null), ("command", .str ""), ("done", .int 1)]
  | some row => .obj [("id", .int row.id), ("command", .str row.command), ("done", .int row.done)]

def fetch (authorised : Bool) (query : Option CommandRow) (now : ℕ) (db : Database) :
    Response × Database :=
  if authorised then (⟨200, .json (fetchBody query)⟩, { db with pings := db.pings ++ [now] })
  else (unauthorized, db)

/-- `POST /done/<int:id>`; an id beyond 64 bits cannot be bound to the statement. -/
def done (authorised : Bool) (id : ℕ) (db : Database) : Response × Database :=
  if authorised then
    if id < integerBound then
      (⟨200, .json (.obj [("id", .int id)])⟩, { db with commands := db.commands.markDone id })
    else (internalServerError, db)
  else (unauthorized, db)

inductive Request
  | command (form : Option String)
  | fetch (authorised : Bool) (query : Option CommandRow)
  | done (authorised : Bool) (id : ℕ)

def serve (db : Database) (now : ℕ) : Request → Response × Database
  | .command form => command form now db
  | .fetch authorised query => fetch authorised query now db
  | .done authorised id => done authorised id db

/-- The query answer carried by a request is one the engine may give. -/
def Request.Admissible (db : Database) : Request → Prop
  | .fetch true query => db.commands.Selects query
  | _ => True

instance (db : Database) (request : Request) : Decidable (request.Admissible db) :=
  match request with
  | .fetch true query => inferInstanceAs (Decidable (db.commands.Selects query))
  | .fetch false _ => isTrue trivial
  | .command _ => isTrue trivial
  | .done _ _ => isTrue trivial

structure Server where
  db : Database
  clock : ℕ

def start : Server := ⟨Database.empty, 0⟩

def step (s : Server) (a : ℕ × Request) : Option Server :=
  if s.clock ≤ a.1 ∧ a.2.Admissible s.db then some ⟨(serve s.db a.1 a.2).2, a.1⟩ else none

theorem step_eq_some {s t : Server} {now : ℕ} {request : Request}
    (h : step s (now, request) = some t) :
    s.clock ≤ now ∧ request.Admissible s.db ∧ t = ⟨(serve s.db now request).2, now⟩ := by
  unfold step at h
  split at h
  · next hguard =>
    cases h
    exact ⟨hguard.1, hguard.2, rfl⟩
  · cases h

theorem serve_commands (db : Database) (now : ℕ) (request : Request) :
    (serve db now request).2.commands = db.commands ∨
    (∃ text, request = .command (some text) ∧ text ≠ "" ∧
      db.commands.insert text 0 now = some (serve db now request).2.commands) ∨
    ∃ id, request = .done true id ∧ id < integerBound ∧
      (serve db now request).2.commands = db.commands.markDone id := by
  cases request with
  | command form =>
    cases form with
    | none => exact .inl rfl
    | some text =>
      by_cases htext : text = ""
      · exact .inl (by simp [serve, command, htext])
      · cases hins : db.commands.insert text 0 now with
        | none => exact .inl (by simp [serve, command, htext, hins])
        | some u => exact .inr (.inl ⟨text, rfl, htext, by simp [serve, command, htext, hins]⟩)
  | fetch authorised query => cases authorised <;> exact .inl rfl
  | done authorised id =>
    cases authorised with
    | false => exact .inl rfl
    | true =>
      by_cases hid : id < integerBound
      · exact .inr (.inr ⟨id, rfl, hid, by simp [serve, done, hid]⟩)
      · exact .inl (by simp [serve, done, hid])

/-- `created_at` follows the insertion order, up to the present. -/
structure Chronological (s : Server) : Prop where
  sorted : s.db.commands.rows.Pairwise fun (a b : CommandRow) => a.createdAt ≤ b.createdAt
  past : ∀ r ∈ s.db.commands.rows, r.createdAt ≤ s.clock

theorem chronological_start : Chronological start := ⟨.nil, by simp [start, Database.empty, Table.empty]⟩

theorem chronological_step (s : Server) (a : ℕ × Request) (t : Server)
    (hs : Chronological s) (h : step s a = some t) : Chronological t := by
  obtain ⟨hclock, _, ht⟩ := step_eq_some h
  rw [ht]
  have hpast : ∀ r ∈ s.db.commands.rows, r.createdAt ≤ a.1 :=
    fun r hr => (hs.past r hr).trans hclock
  rcases serve_commands s.db a.1 a.2 with hsame | ⟨text, _, _, hins⟩ | ⟨id, _, _, hdone⟩
  · exact ⟨by rw [hsame]; exact hs.sorted, by rw [hsame]; exact hpast⟩
  · have hrows := Table.insert_eq_some hins
    refine ⟨?_, ?_⟩
    · rw [hrows]
      refine List.pairwise_append.mpr ⟨hs.sorted, List.pairwise_singleton _ _, ?_⟩
      intro p hp q hq
      rw [List.mem_singleton.mp hq]
      exact hpast p hp
    · intro r hr
      rw [hrows] at hr
      cases List.mem_append.mp hr with
      | inl hr => exact hpast r hr
      | inr hr =>
        rw [List.mem_singleton.mp hr]
        exact le_rfl
  · have hcreated : ∀ r : CommandRow, (if r.id = id then r.setDone else r).createdAt = r.createdAt := by
      intro r
      split <;> rfl
    refine ⟨?_, ?_⟩
    · rw [hdone, Table.markDone_rows]
      refine List.pairwise_map.mpr (hs.sorted.imp fun {p q} hpq => ?_)
      rw [hcreated, hcreated]
      exact hpq
    · intro r hr
      rw [hdone, Table.markDone_rows] at hr
      obtain ⟨q, hq, hqr⟩ := List.mem_map.mp hr
      rw [← hqr, hcreated]
      exact hpast q hq

end Cherum.CommandServer
