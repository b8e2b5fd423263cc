import Cherum.CommandServer

/-! poller.py: `poll`, `mark_done` and the body of the main loop, with the
exceptions that leave them. The pipe has a reader, so that opening and writing
it succeed. A body that raises ends the loop, there is no handler around it. -/

namespace Cherum.CommandPoller
open CommandServer CommandTable HttpMessages PythonJson

inductive CommandByte
  | l
  | h
  | r
  deriving DecidableEq, Repr

/-- The byte written for `res["command"]`; nothing for a command it does not know. -/
def commandByte (command : Json) : Option CommandByte :=
  if command.isStr "land" then some .l
  else if command.isStr "loiter" then some .h
  else if command.isStr "rtl" then some .r
  else none

/-- The three commands and their bytes; every other text has none. -/
theorem commandByte_str (command : String) :
    commandByte (.str command) = [("land", .l), ("loiter", .h), ("rtl", .r)].lookup command := by
  by_cases hland : command = "land"
  · rw [hland]
    rfl
  by_cases hloiter : command = "loiter"
  · rw [hloiter]
    rfl
  by_cases hrtl : command = "rtl"
  · rw [hrtl]
    rfl
  simp [commandByte, Json.isStr, List.lookup_cons, beq_false_of_ne hland, beq_false_of_ne hloiter,
    beq_false_of_ne hrtl]

def poll (exchange : Exchange) (onError : String) : Except PyError Json :=
  match exchange with
  | .answered response => response.json
  | .connectionError => .ok (.obj [("done", .bool false), ("command", .str onError)])

def markDone : Exchange → Except PyError Json
  | .answered response => response.json
  | .connectionError => .error .connectionError

/-- `res["id"]` when `"id" in res and res["id"] is not None`. -/
def acknowledgedId (res : Json) : Except PyError (Option Json) := do
  if ← res.contains "id" then
    match ← res.getItem "id" with
    | .null => return none
    | id => return some id
  else return none

inductive Plan
  | skip
  | forward (byte : Option CommandByte) (id : Option Json)

/-- What the loop body does with the answer of `poll`: nothing when it is done,
otherwise a session on the pipe and then, with an id, the acknowledgement. -/
def plan (res : Json) : Except PyError Plan := do
  let done ← res.getItem "done"
  if done.truthy then return .skip
  let command ← res.getItem "command"
  let id ← acknowledgedId res
  return .forward (commandByte command) id

structure Iteration where
  wrote : Option CommandByte
  raised : Option PyError

def iteration (onError : String) (fetched acknowledged : Exchange) : Iteration :=
  match poll fetched onError with
  | .error e => ⟨none, some e⟩
  | .ok res =>
    match plan res with
    | .error e => ⟨none, some e⟩
    | .ok .skip => ⟨none, none⟩
    | .ok (.forward byte none) => ⟨byte, none⟩
    | .ok (.forward byte (some _)) =>
      match markDone acknowledged with
      | .error e => ⟨byte, some e⟩
      | .ok _ => ⟨byte, none⟩

/-- The iterations the main loop gets to: the first that raises is the last. -/
def mainLoop (onError : String) : List (Exchange × Exchange) → List Iteration
  | [] => []
  | (fetched, acknowledged) :: rest =>
    let i := iteration onError fetched acknowledged
    match i.raised with
    | none => i :: mainLoop onError rest
    | some _ => [i]

@[simp] theorem plan_row (row : CommandRow) :
    plan (fetchBody (some row)) = .ok (if row.done = 0 then
      .forward (commandByte (.str row.command)) (some (.int row.id)) else .skip) := by
  have hdone : (fetchBody (some row)).getItem "done" = .ok (.int row.done) := rfl
  have hcommand : (fetchBody (some row)).getItem "command" = .ok (.str row.command) := rfl
  have hid : acknowledgedId (fetchBody (some row)) = .ok (some (.int row.id)) := rfl
  simp only [plan, hdone, hcommand, hid, bind, Except.bind, pure, Except.pure, Json.truthy]
  by_cases h : row.done = 0 <;> simp [h]

@[simp] theorem plan_noRow : plan (fetchBody none) = .ok .skip := rfl

@[simp] theorem plan_failsafe (onError : String) :
    plan (.obj [("done", .bool false), ("command", .str onError)]) =
      .ok (.forward (commandByte (.str onError)) none) := rfl

end Cherum.CommandPoller
