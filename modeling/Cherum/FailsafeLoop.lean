import Cherum.CommandPoller

/-! The poller's main loop against every outcome its two requests can have.
`poll` turns a connection error into the failsafe command; an answer is taken
as it comes, whatever its status, and `mark_done` has no handler at all. -/

namespace Cherum.FailsafeLoop
open CommandServer CommandTable CommandPoller HttpMessages PythonJson

inductive FetchOutcome
  | found (row : CommandRow)
  | noRow
  | unauthorized
  | serverError
  | connectionFailure
  deriving DecidableEq

inductive DoneOutcome
  | acknowledged (id : ℕ)
  | unauthorized
  | serverError
  | connectionFailure
  deriving DecidableEq

def FetchOutcome.exchange : FetchOutcome → Exchange
  | found row => .answered ⟨200, .json (fetchBody (some row))⟩
  | noRow => .answered ⟨200, .json (fetchBody none)⟩
  | unauthorized => .answered HttpMessages.unauthorized
  | serverError => .answered internalServerError
  | connectionFailure => .connectionError

def DoneOutcome.exchange : DoneOutcome → Exchange
  | acknowledged id => .answered ⟨200, .json (.obj [("id", .int id)])⟩
  | unauthorized => .answered HttpMessages.unauthorized
  | serverError => .answered internalServerError
  | connectionFailure => .connectionError

theorem fetch_outcome (authorised : Bool) (query : Option CommandRow) (now : ℕ) (db : Database) :
    ∃ outcome : FetchOutcome, outcome.exchange = .answered (fetch authorised query now db).1 := by
  cases authorised with
  | false => exact ⟨.unauthorized, rfl⟩
  | true =>
    cases query with
    | none => exact ⟨.noRow, rfl⟩
    | some row => exact ⟨.found row, rfl⟩

theorem done_outcome (authorised : Bool) (id : ℕ) (db : Database) :
    ∃ outcome : DoneOutcome, outcome.exchange = .answered (done authorised id db).1 := by
  cases authorised with
  | false => exact ⟨.unauthorized, rfl⟩
  | true =>
    by_cases h : id < integerBound
    · exact ⟨.acknowledged id, by simp [done, h, DoneOutcome.exchange]⟩
    · exact ⟨.serverError, by simp [done, h, DoneOutcome.exchange]⟩

def FetchOutcome.obtained : FetchOutcome → Bool
  | found _ => true
  | noRow => true
  | _ => false

def exchanges (outcome : FetchOutcome × DoneOutcome) : Exchange × Exchange :=
  (outcome.1.exchange, outcome.2.exchange)

/-- The iteration ends normally, and writes the failsafe byte unless the fetch
obtained an answer with status 200. -/
def Survives (failsafe : CommandByte) (outcome : FetchOutcome × DoneOutcome) (i : Iteration) :
    Prop :=
  i.raised = none ∧ (outcome.1.obtained = false → i.wrote = some failsafe)

def LoopSurvives (onError : String) (failsafe : CommandByte)
    (outcomes : List (FetchOutcome × DoneOutcome)) : Prop :=
  List.Forall₂ (Survives failsafe) outcomes (mainLoop onError (outcomes.map exchanges))

/-- The fetch is answered with status 200 or fails to connect, and a pending row
it returns is acknowledged with a JSON answer. -/
def Tolerated (outcome : FetchOutcome × DoneOutcome) : Prop :=
  match outcome.1 with
  | .found row => row.done = 0 → outcome.2 ≠ .serverError ∧ outcome.2 ≠ .connectionFailure
  | .noRow => True
  | .connectionFailure => True
  | .unauthorized => False
  | .serverError => False

theorem iteration_found (onError : String) (row : CommandRow) (outcome : DoneOutcome) :
    (iteration onError (FetchOutcome.found row).exchange outcome.exchange).raised = none ↔
      (row.done = 0 → outcome ≠ .serverError ∧ outcome ≠ .connectionFailure) := by
  have hplan := plan_row row
  simp only [iteration, FetchOutcome.exchange, poll, Response.json, hplan]
  by_cases hdone : row.done = 0
  · cases outcome <;> simp [hdone, markDone, DoneOutcome.exchange, Response.json,
      HttpMessages.unauthorized, internalServerError]
  · simp [hdone]

variable {onError : String} {failsafe : CommandByte}

theorem survives_iff (hbyte : commandByte (.str onError) = some failsafe)
    (outcome : FetchOutcome × DoneOutcome) :
    Survives failsafe outcome (iteration onError outcome.1.exchange outcome.2.exchange) ↔
      Tolerated outcome := by
  obtain ⟨fetched, acknowledged⟩ := outcome
  cases fetched with
  | found row => simp [Survives, Tolerated, FetchOutcome.obtained, iteration_found]
  | noRow => simp [Survives, Tolerated, FetchOutcome.obtained, iteration, poll,
      FetchOutcome.exchange, Response.json]
  | unauthorized =>
    have hraised : (iteration onError FetchOutcome.unauthorized.exchange
      acknowledged.exchange).raised = some .keyError := rfl
    simp [Survives, Tolerated, hraised]
  | serverError =>
    have hraised : (iteration onError FetchOutcome.serverError.exchange
      acknowledged.exchange).raised = some .jsonDecodeError := rfl
    simp [Survives, Tolerated, hraised]
  | connectionFailure => simp [Survives, Tolerated, iteration, poll,
      FetchOutcome.exchange, hbyte]

theorem loopSurvives_iff (hbyte : commandByte (.str onError) = some failsafe)
    (outcomes : List (FetchOutcome × DoneOutcome)) :
    LoopSurvives onError failsafe outcomes ↔ ∀ outcome ∈ outcomes, Tolerated outcome := by
  unfold LoopSurvives
  induction outcomes with
  | nil => simp [mainLoop]
  | cons outcome rest ih =>
    have hsurvives := survives_iff hbyte outcome
    rw [List.forall_mem_cons, ← hsurvives, ← ih]
    simp only [List.map_cons, exchanges, mainLoop]
    cases hraised : (iteration onError outcome.1.exchange outcome.2.exchange).raised with
    | none => simp only [List.forall₂_cons]
    | some e =>
      have hnot : ¬ Survives failsafe outcome
          (iteration onError outcome.1.exchange outcome.2.exchange) := by
        simp [Survives, hraised]
      simp [List.forall₂_cons, hnot]

/-- Along every finite and every infinite sequence of outcomes, the loop goes
on and writes the failsafe byte on every failed fetch exactly when all outcomes
are tolerated ones. -/
theorem failsafe_survives_iff (hbyte : commandByte (.str onError) = some failsafe) :
    (∀ outcomes, LoopSurvives onError failsafe outcomes ↔
      ∀ outcome ∈ outcomes, Tolerated outcome) ∧
    ∀ outcomes : ℕ → FetchOutcome × DoneOutcome,
      (∀ n, LoopSurvives onError failsafe ((List.range n).map outcomes)) ↔
        ∀ n, Tolerated (outcomes n) := by
  refine ⟨loopSurvives_iff hbyte, fun outcomes => ?_⟩
  simp only [loopSurvives_iff hbyte, List.forall_mem_map, List.mem_range]
  exact ⟨fun h n => h (n + 1) n (Nat.lt_succ_self n), fun h n k _ => h k⟩

theorem failsafe_survives_outage :
    LoopSurvives "loiter" .h [(.found ⟨1, "land", 0, 7⟩, .acknowledged 1),
      (.connectionFailure, .connectionFailure)] := by
  have hbyte : commandByte (.str "loiter") = some .h := rfl
  exact ((failsafe_survives_iff hbyte).1 _).mpr (by simp [Tolerated])

/-- A wrong token, an error page and a lost acknowledgement each end the loop,
the first two without a byte on the pipe. -/
theorem failsafe_lost_on_server_failure :
    ¬ LoopSurvives "loiter" .h [(.unauthorized, .unauthorized)] ∧
    mainLoop "loiter" ([(.unauthorized, .unauthorized), (.noRow, .unauthorized)].map exchanges) =
      [⟨none, some .keyError⟩] ∧
    mainLoop "loiter" ([(.serverError, .serverError), (.noRow, .serverError)].map exchanges) =
      [⟨none, some .jsonDecodeError⟩] ∧
    mainLoop "loiter" ([(.found ⟨1, "land", 0, 7⟩, .connectionFailure),
      (.connectionFailure, .connectionFailure)].map exchanges) =
      [⟨some .l, some .connectionError⟩] := by
  refine ⟨?_, rfl, rfl, rfl⟩
  simp [LoopSurvives, mainLoop, exchanges, Survives, List.forall₂_cons,
    show (iteration "loiter" FetchOutcome.unauthorized.exchange
      DoneOutcome.unauthorized.exchange).raised = some .keyError from rfl]

end Cherum.FailsafeLoop
