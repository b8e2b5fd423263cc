import Cherum.ActionRuns
import Cherum.CommandServer

/-! The routes over SQLite as the threads of the web server run them, statement
by statement. Every request has a connection of its own. The first `INSERT` or
`UPDATE` on a connection opens a transaction, of which the database admits one
at a time; a `SELECT` sees what is committed. A database call may raise at any
time, after waiting for a lock for example; the connection is then closed, and
its transaction undone. Beside this the model notes the requests of a server
that serves them one after the other, in the order in which they take effect. -/

namespace Cherum.ConcurrentRequests
open CommandServer hiding step
open ActionRuns CommandTable HttpMessages PythonJson

inductive Call
  | command (form : Option String)
  | fetch (authorised : Bool)
  | done (authorised : Bool) (id : ℕ)

inductive Pc
  | begun
  /-- `/fetch` after its `SELECT`. -/
  | selected (query : Option CommandRow)
  /-- The `INSERT` or `UPDATE` was executed at this time and is not committed. -/
  | executed (request : Request) (now : ℕ) (answer : Response)
  | answered (response : Response)

structure Handler where
  call : Call
  pc : Pc

structure Running where
  committed : Database
  clock : ℕ
  /-- The thread whose connection has a transaction open, and what it sees. -/
  transaction : Option (ℕ × Database)
  handlers : ℕ → Option Handler
  history : List (ℕ × ℕ × Request)

def initial : Running := ⟨Database.empty, 0, none, fun _ => none, []⟩

inductive Action
  | arrive (thread : ℕ) (call : Call)
  | respond (thread : ℕ)
  | select (thread : ℕ) (query : Option CommandRow)
  | refuse (thread : ℕ)
  | execute (thread : ℕ) (now : ℕ)
  | commit (thread : ℕ)
  | raises (thread : ℕ)

/-- The request of a call that does not get to the database. -/
def unserved : Call → Option Request
  | .command none => some (.command none)
  | .command (some text) => if text = "" then some (.command (some text)) else none
  | .fetch authorised => if authorised then none else some (.fetch false none)
  | .done authorised id => if authorised then none else some (.done false id)

def statement : Handler → Option Request
  | ⟨.command (some text), .begun⟩ => if text = "" then none else some (.command (some text))
  | ⟨.fetch true, .selected query⟩ => some (.fetch true query)
  | ⟨.done true id, .begun⟩ => some (.done true id)
  | _ => none

/-- Python binds an integer of at most 64 bits to a statement. -/
def bindable : Request → Bool
  | .done _ id => id < integerBound
  | _ => true

def isFetch : Request → Bool
  | .fetch _ _ => true
  | _ => false

def callOf : Request → Call
  | .command form => .command form
  | .fetch authorised _ => .fetch authorised
  | .done authorised id => .done authorised id

namespace Running

def instant (c : Running) : ℕ := (c.history.getLast?.map fun e => e.2.1).getD 0

def place (c : Running) (thread : ℕ) (call : Call) (pc : Pc) : Running :=
  { c with handlers := Function.update c.handlers thread (some ⟨call, pc⟩) }

def record (c : Running) (thread now : ℕ) (request : Request) : Running :=
  { c with history := c.history ++ [(thread, now, request)] }

def rollback (c : Running) (thread : ℕ) : Running :=
  { c with transaction := c.transaction.filter fun t => t.1 ≠ thread }

end Running

def step (c : Running) : Action → Option Running
  | .arrive thread call =>
    match c.handlers thread with
    | none => some (c.place thread call .begun)
    | some _ => none
  | .respond thread =>
    match c.handlers thread with
    | some ⟨call, .begun⟩ => (unserved call).map fun request =>
        (c.place thread call (.answered (serve c.committed c.instant request).1)).record
          thread c.instant request
    | _ => none
  | .select thread query =>
    match c.handlers thread with
    | some ⟨.fetch true, .begun⟩ =>
      if c.committed.commands.Selects query then
        some ((c.place thread (.fetch true) (.selected query)).record
          thread c.instant (.fetch true query))
      else none
    | _ => none
  | .refuse thread =>
    match c.handlers thread with
    | some h =>
      match statement h with
      | some request =>
        if bindable request then none
        else some (c.place thread h.call (.answered internalServerError))
      | none => none
    | none => none
  | .execute thread now =>
    match c.handlers thread with
    | some h =>
      match statement h with
      | some request =>
        if bindable request ∧ c.clock ≤ now ∧ c.transaction = none then
          if (serve c.committed now request).1.status = 500 then
            some { c.place thread h.call (.answered internalServerError) with clock := now }
          else
            some { c.place thread h.call (.executed request now (serve c.committed now request).1) with
              clock := now
              transaction := some (thread, (serve c.committed now request).2) }
        else none
      | none => none
    | none => none
  | .commit thread =>
    match c.handlers thread, c.transaction with
    | some ⟨call, .executed request now answer⟩, some (holder, view) =>
      if holder = thread then
        let c := { c.place thread call (.answered answer) with committed := view, transaction := none }
        some (if isFetch request then c else c.record thread now request)
      else none
    | _, _ => none
  | .raises thread =>
    match c.handlers thread with
    | some ⟨_, .answered _⟩ => none
    | some ⟨call, _⟩ =>
      some ((c.place thread call (.answered internalServerError)).rollback thread)
    | none => none

inductive Moves (c : Running) : Action → Running → Prop
  | arrive {i : ℕ} {call : Call} (hnew : c.handlers i = none) :
      Moves c (.arrive i call) (c.place i call .begun)
  | respond {i : ℕ} {call : Call} {request : Request} (hbegun : c.handlers i = some ⟨call, .begun⟩)
      (hrequest : unserved call = some request) :
      Moves c (.respond i)
        ((c.place i call (.answered (serve c.committed c.instant request).1)).record
          i c.instant request)
  | select {i : ℕ} {query : Option CommandRow}
      (hbegun : c.handlers i = some ⟨.fetch true, .begun⟩)
      (hquery : c.committed.commands.Selects query) :
      Moves c (.select i query)
        ((c.place i (.fetch true) (.selected query)).record i c.instant (.fetch true query))
  | refuse {i : ℕ} {h : Handler} {request : Request} (hhandler : c.handlers i = some h)
      (hrequest : statement h = some request) :
      Moves c (.refuse i) (c.place i h.call (.answered internalServerError))
  | executeFails {i now : ℕ} {h : Handler} {request : Request} (hhandler : c.handlers i = some h)
      (hrequest : statement h = some request) (hclock : c.clock ≤ now)
      (hfree : c.transaction = none) :
      Moves c (.execute i now)
        { c.place i h.call (.answered internalServerError) with clock := now }
  | execute {i now : ℕ} {h : Handler} {request : Request} (hhandler : c.handlers i = some h)
      (hrequest : statement h = some request) (hclock : c.clock ≤ now)
      (hfree : c.transaction = none) (hstatus : (serve c.committed now request).1.status ≠ 500) :
      Moves c (.execute i now)
        { c.place i h.call (.executed request now (serve c.committed now request).1) with
          clock := now
          transaction := some (i, (serve c.committed now request).2) }
  | commitFetch {i now : ℕ} {call : Call} {request : Request} {answer : Response} {view : Database}
      (hexecuted : c.handlers i = some ⟨call, .executed request now answer⟩)
      (hview : c.transaction = some (i, view)) (hfetch : isFetch request = true) :
      Moves c (.commit i)
        { c.place i call (.answered answer) with committed := view, transaction := none }
  | commit {i now : ℕ} {call : Call} {request : Request} {answer : Response} {view : Database}
      (hexecuted : c.handlers i = some ⟨call, .executed request now answer⟩)
      (hview : c.transaction = some (i, view)) (hfetch : isFetch request = false) :
      Moves c (.commit i)
        (Running.record { c.place i call (.answered answer) with
          committed := view, transaction := none } i now request)
  | raises {i : ℕ} {h : Handler} (hhandler : c.handlers i = some h)
      (hpending : ∀ answer, h.pc ≠ .answered answer) :
      Moves c (.raises i) ((c.place i h.call (.answered internalServerError)).rollback i)

variable {c d : Running} {a : Action}

theorem moves_of_step (h : step c a = some d) : Moves c a d := by
  cases a with
  | arrive i call =>
    simp only [step] at h
    split at h
    · next hnew =>
      cases h
      exact .arrive hnew
    · cases h
  | respond i =>
    simp only [step] at h
    split at h
    · next call hbegun =>
      obtain ⟨request, hrequest, hd⟩ := Option.map_eq_some_iff.mp h
      exact hd ▸ .respond hbegun hrequest
    · cases h
  | select i query =>
    simp only [step] at h
    split at h
    · next hbegun =>
      split at h
      · next hquery =>
        cases h
        exact .select hbegun hquery
      · cases h
    · cases h
  | refuse i =>
    simp only [step] at h
    split at h
    · next handler hhandler =>
      split at h
      · next request hrequest =>
        split at h
        · cases h
        · cases h
          exact .refuse hhandler hrequest
      · cases h
    · cases h
  | execute i now =>
    simp only [step] at h
    split at h
    · next handler hhandler =>
      split at h
      · next request hrequest =>
        split at h
        · next hguard =>
          split at h
          · cases h
            exact .executeFails hhandler hrequest hguard.2.1 hguard.2.2
          · next hstatus =>
            cases h
            exact .execute hhandler hrequest hguard.2.1 hguard.2.2 hstatus
        · cases h
      · cases h
    · cases h
  | commit i =>
    simp only [step] at h
    split at h
    · next call request now answer holder view hexecuted hview =>
      split at h
      · next hholder =>
        rw [hholder] at hview
        cases hfetch : isFetch request with
        | true =>
          rw [hfetch, if_pos rfl] at h
          cases h
          exact .commitFetch hexecuted hview hfetch
        | false =>
          rw [hfetch, if_neg Bool.false_ne_true] at h
          cases h
          exact .commit hexecuted hview hfetch
      · cases h
    · cases h
  | raises i =>
    simp only [step] at h
    split at h
    · cases h
    · next call pc hpending hhandler =>
      cases h
      exact .raises hhandler hpending
    · cases h

theorem unserved_serve {call : Call} {request : Request} (h : unserved call = some request)
    (db : Database) (now : ℕ) :
    callOf request = call ∧ (serve db now request).2 = db ∧ request.Admissible db := by
  cases call with
  | command form =>
    cases form with
    | none =>
      cases h
      exact ⟨rfl, rfl, trivial⟩
    | some text =>
      simp only [unserved, Option.ite_none_right_eq_some, Option.some.injEq] at h
      rw [← h.2]
      exact ⟨rfl, by simp [serve, command, h.1], trivial⟩
  | fetch authorised =>
    cases authorised with
    | true => cases h
    | false =>
      cases h
      exact ⟨rfl, rfl, trivial⟩
  | done authorised id =>
    cases authorised with
    | true => cases h
    | false =>
      cases h
      exact ⟨rfl, rfl, trivial⟩

theorem unserved_status {call : Call} {request : Request} (h : unserved call = some request)
    (db : Database) (now : ℕ) : (serve db now request).1.status ≠ 500 := by
  have hhome : redirectHome.status ≠ 500 ∧ unauthorized.status ≠ 500 := by decide
  cases call with
  | command form =>
    cases form with
    | none =>
      cases h
      exact hhome.1
    | some text =>
      simp only [unserved, Option.ite_none_right_eq_some, Option.some.injEq] at h
      rw [← h.2]
      simp [serve, command, h.1, hhome.1]
  | fetch authorised =>
    cases authorised <;> cases h
    exact hhome.2
  | done authorised id =>
    cases authorised <;> cases h
    exact hhome.2

theorem statement_pc {h : Handler} {request : Request} (hrequest : statement h = some request)
    (executed : Request) (now : ℕ) (answer : Response) : h.pc ≠ .executed executed now answer := by
  intro hpc
  obtain ⟨call, pc⟩ := h
  have hpc : pc = .executed executed now answer := hpc
  rw [hpc] at hrequest
  unfold statement at hrequest
  split at hrequest <;> simp_all

theorem statement_pending {h : Handler} {request : Request} (hrequest : statement h = some request)
    (answer : Response) : h.pc ≠ .answered answer := by
  intro hpc
  obtain ⟨call, pc⟩ := h
  have hpc : pc = .answered answer := hpc
  rw [hpc] at hrequest
  unfold statement at hrequest
  split at hrequest <;> simp_all

/-- A step moves the handler of one thread, which has not answered yet. An entry
that it adds to the history is of this thread, and if it is not a fetch the
thread answers with it. -/
theorem step_handlers (h : step c a = some d) :
    ∃ i call pc, (∀ call answer, c.handlers i ≠ some ⟨call, .answered answer⟩) ∧
      d.handlers = Function.update c.handlers i (some ⟨call, pc⟩) ∧
      (∀ request now answer, pc = .executed request now answer → answer.status ≠ 500) ∧
      (d.history = c.history ∨ ∃ now request, d.history = c.history ++ [(i, now, request)] ∧
        (isFetch request = false → ∃ answer, pc = .answered answer ∧ (answer.status ≠ 500 ∨
          ∃ call now, c.handlers i = some ⟨call, .executed request now answer⟩))) := by
  have hnot : ∀ {i : ℕ} {h : Handler}, c.handlers i = some h → (∀ answer, h.pc ≠ .answered answer) →
      ∀ call answer, c.handlers i ≠ some ⟨call, .answered answer⟩ := by
    intro i h hhandler hpending call answer hanswered
    rw [hhandler, Option.some.injEq] at hanswered
    exact hpending answer (congrArg Handler.pc hanswered)
  cases moves_of_step h with
  | arrive hnew =>
    refine ⟨_, _, _, fun call answer hanswered => ?_, rfl, fun _ _ _ h => Pc.noConfusion h, .inl rfl⟩
    rw [hnew] at hanswered
    cases hanswered
  | respond hbegun hrequest =>
    refine ⟨_, _, _, hnot hbegun fun _ h => Pc.noConfusion h, rfl, fun _ _ _ h => Pc.noConfusion h,
      .inr ⟨_, _, rfl, fun _ => ⟨_, rfl, .inl (unserved_status hrequest _ _)⟩⟩⟩
  | select hbegun hquery =>
    exact ⟨_, _, _, hnot hbegun fun _ h => Pc.noConfusion h, rfl, fun _ _ _ h => Pc.noConfusion h,
      .inr ⟨_, _, rfl, fun hfetch => Bool.noConfusion hfetch⟩⟩
  | refuse hhandler hrequest =>
    exact ⟨_, _, _, hnot hhandler (statement_pending hrequest), rfl,
      fun _ _ _ h => Pc.noConfusion h, .inl rfl⟩
  | executeFails hhandler hrequest =>
    exact ⟨_, _, _, hnot hhandler (statement_pending hrequest), rfl,
      fun _ _ _ h => Pc.noConfusion h, .inl rfl⟩
  | execute hhandler hrequest _ _ hstatus =>
    refine ⟨_, _, _, hnot hhandler (statement_pending hrequest), rfl, fun own time answer hpc => ?_,
      .inl rfl⟩
    rw [Pc.executed.injEq] at hpc
    rw [← hpc.2.2]
    exact hstatus
  | commitFetch hexecuted =>
    exact ⟨_, _, _, hnot hexecuted fun _ h => Pc.noConfusion h, rfl,
      fun _ _ _ h => Pc.noConfusion h, .inl rfl⟩
  | commit hexecuted =>
    exact ⟨_, _, _, hnot hexecuted fun _ h => Pc.noConfusion h, rfl,
      fun _ _ _ h => Pc.noConfusion h,
      .inr ⟨_, _, rfl, fun _ => ⟨_, rfl, .inr ⟨_, _, hexecuted⟩⟩⟩⟩
  | raises hhandler hpending =>
    exact ⟨_, _, _, hnot hhandler hpending, rfl, fun _ _ _ h => Pc.noConfusion h, .inl rfl⟩

theorem answered_stays (h : step c a = some d) {i : ℕ} {call : Call} {answer : Response}
    (hanswered : c.handlers i = some ⟨call, .answered answer⟩) :
    d.handlers i = some ⟨call, .answered answer⟩ := by
  obtain ⟨j, own, pc, hpending, hhandlers, _⟩ := step_handlers h
  have hne : i ≠ j := fun hij => hpending call answer (hij ▸ hanswered)
  rw [hhandlers, Function.update_of_ne hne]
  exact hanswered

end Cherum.ConcurrentRequests
