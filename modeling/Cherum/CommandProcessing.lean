import Cherum.ActionRuns

/-! `process_commands` of controller.py among the tasks that `main` gathers. An
action that the vehicle denies raises, nothing catches the exception, and the
task is over. `gather` hands the exception to `main`, which ends with it, and
then `asyncio.run` cancels every task that is left. `read_pipe` and
`pub_telemetry` catch the exceptions of their own loops. -/

namespace Cherum.CommandProcessing
open ActionRuns

inductive DroneAction
  | land
  | hold
  | returnToLaunch
  deriving DecidableEq, Repr

/-- The action of a queue entry; the others are unknown commands. -/
def action? : String → Option DroneAction
  | "l" => some .land
  | "h" => some .hold
  | "r" => some .returnToLaunch
  | _ => none

inductive Task
  | readPipe
  | monitorPosition
  | monitorBattery
  | monitorMode
  | monitorInAir
  | monitorArmed
  | processCommands
  | queueParser
  | pubTelemetry
  deriving DecidableEq, Repr

inductive Status
  | running
  | raised
  | cancelled
  deriving DecidableEq, Repr

inductive ActionResult
  | returned
  | raised
  deriving DecidableEq, Repr

structure Config where
  tasks : Task → Status
  mainEnded : Bool
  commandQueue : List String
  /-- The action `process_commands` awaits. -/
  awaited : Option DroneAction
  attempted : List DroneAction
  arrived : List String

def initial : Config := ⟨fun _ => .running, false, [], none, [], []⟩

inductive Event
  /-- `read_pipe` puts an entry on the queue. -/
  | arrive (command : String)
  | get
  /-- The awaited action is over. -/
  | finish (result : ActionResult)
  /-- `main` leaves `gather` with the exception of a task. -/
  | mainEnds
  deriving DecidableEq, Repr

def cancelAll (tasks : Task → Status) (task : Task) : Status :=
  if tasks task = .running then .cancelled else tasks task

/-- What the end of the awaited action does to `process_commands`. -/
def Config.finished (c : Config) : ActionResult → Config
  | .returned => { c with awaited := none }
  | .raised =>
    { c with awaited := none, tasks := Function.update c.tasks .processCommands .raised }

def step (c : Config) : Event → Option Config
  | .arrive command =>
    if c.tasks .readPipe = .running then
      some { c with commandQueue := c.commandQueue ++ [command], arrived := c.arrived ++ [command] }
    else none
  | .get =>
    match c.commandQueue with
    | [] => none
    | command :: rest =>
      if c.tasks .processCommands = .running ∧ c.awaited = none then
        some { c with
          commandQueue := rest, awaited := action? command,
          attempted := c.attempted ++ (action? command).toList }
      else none
  | .finish result =>
    if c.tasks .processCommands = .running ∧ c.awaited ≠ none then some (c.finished result)
    else none
  | .mainEnds =>
    if c.tasks .processCommands = .raised ∧ c.mainEnded = false then
      some { c with mainEnded := true, tasks := cancelAll c.tasks }
    else none

def Settled (c : Config) : Prop := ∀ e, (∀ command, e ≠ .arrive command) → step c e = none

/-- Every recognised entry was attempted once, in order, and the other tasks run. -/
structure KeptGoing (c : Config) : Prop where
  attempted : c.attempted = c.arrived.filterMap action?
  others : ∀ task, task ≠ .processCommands → c.tasks task = .running

structure Sound (c : Config) : Prop where
  main : c.mainEnded = false
  tasks : ∀ task, c.tasks task = .running
  attempted : c.attempted ++ c.commandQueue.filterMap action? = c.arrived.filterMap action?

structure Failed (c : Config) : Prop where
  raised : c.mainEnded = true ∨ c.tasks .processCommands = .raised
  cancelled : c.mainEnded = true → ∀ task, c.tasks task ≠ .running

variable {c d : Config}

theorem get_cases (h : step c .get = some d) :
    ∃ command rest, c.commandQueue = command :: rest ∧ c.tasks .processCommands = .running ∧
      d = { c with
        commandQueue := rest, awaited := action? command,
        attempted := c.attempted ++ (action? command).toList } := by
  cases hqueue : c.commandQueue with
  | nil => simp [step, hqueue] at h
  | cons command rest =>
    simp only [step, hqueue, Option.ite_none_right_eq_some, Option.some.injEq] at h
    exact ⟨command, rest, rfl, h.1.1, h.2.symm⟩

theorem sound_step {e : Event} (he : e ≠ .finish .raised) (hc : Sound c)
    (h : step c e = some d) : Sound d := by
  cases e with
  | arrive command =>
    rw [step, if_pos (hc.tasks _), Option.some.injEq] at h
    rw [← h]
    refine ⟨hc.main, hc.tasks, ?_⟩
    simp only [List.filterMap_append, ← hc.attempted, List.append_assoc]
  | get =>
    obtain ⟨command, rest, hqueue, _, hd⟩ := get_cases h
    have hattempted := hc.attempted
    rw [hqueue, List.filterMap_cons] at hattempted
    rw [hd]
    refine ⟨hc.main, hc.tasks, ?_⟩
    rw [← hattempted, List.append_assoc]
    cases action? command <;> rfl
  | finish result =>
    cases result with
    | raised => exact absurd rfl he
    | returned =>
      simp only [step, Option.ite_none_right_eq_some, Option.some.injEq] at h
      rw [← h.2]
      exact ⟨hc.main, hc.tasks, hc.attempted⟩
  | mainEnds =>
    simp only [step, hc.tasks, reduceCtorEq, false_and, if_false] at h

theorem failed_of_raised (hc : Sound c) (h : step c (.finish .raised) = some d) : Failed d := by
  simp only [step, Option.ite_none_right_eq_some, Option.some.injEq] at h
  rw [← h.2]
  have hraised : Function.update c.tasks .processCommands .raised .processCommands =
      Status.raised := Function.update_self ..
  refine ⟨.inr hraised, fun hended => ?_⟩
  exact absurd (hc.main.symm.trans hended) (by decide)

theorem cancelAll_ne_running (tasks : Task → Status) (task : Task) :
    cancelAll tasks task ≠ .running := by
  unfold cancelAll
  split
  · decide
  · next hother => exact hother

theorem failed_step {e : Event} (hc : Failed c) (h : step c e = some d) : Failed d := by
  have hrunning : c.tasks .processCommands ≠ .running := by
    cases hc.raised with
    | inl hended => exact hc.cancelled hended _
    | inr hraised => simp [hraised]
  cases e with
  | arrive command =>
    simp only [step, Option.ite_none_right_eq_some, Option.some.injEq] at h
    rw [← h.2]
    exact ⟨hc.raised, hc.cancelled⟩
  | get =>
    obtain ⟨_, _, _, hget, _⟩ := get_cases h
    exact absurd hget hrunning
  | finish result =>
    simp only [step, Option.ite_none_right_eq_some, Option.some.injEq] at h
    exact absurd h.1.1 hrunning
  | mainEnds =>
    simp only [step, Option.ite_none_right_eq_some, Option.some.injEq] at h
    rw [← h.2]
    exact ⟨.inl rfl, fun _ => cancelAll_ne_running c.tasks⟩

theorem sound_initial : Sound initial := ⟨rfl, fun _ => rfl, rfl⟩

theorem keptGoing_of_sound (hc : Sound c) (hsettled : Settled c) : KeptGoing c := by
  have hawaited : c.awaited = none := by
    by_contra hawaited
    have hfinish := hsettled (.finish .returned) fun _ => Event.noConfusion
    rw [step, if_pos ⟨hc.tasks _, hawaited⟩] at hfinish
    cases hfinish
  have hqueue : c.commandQueue = [] := by
    cases hqueue : c.commandQueue with
    | nil => rfl
    | cons command rest =>
      have hget := hsettled .get fun _ => Event.noConfusion
      simp only [step, hqueue] at hget
      rw [if_pos ⟨hc.tasks _, hawaited⟩] at hget
      cases hget
  have hattempted := hc.attempted
  rw [hqueue, List.filterMap_nil, List.append_nil] at hattempted
  exact ⟨hattempted, fun task _ => hc.tasks task⟩

theorem not_keptGoing_of_failed (hc : Failed c) (hsettled : Settled c) : ¬ KeptGoing c := by
  have hended : c.mainEnded = true := by
    cases hc.raised with
    | inl hended => exact hended
    | inr hraised =>
      by_contra hmain
      have hends := hsettled .mainEnds fun _ => Event.noConfusion
      rw [step, if_pos ⟨hraised, Bool.eq_false_of_not_eq_true hmain⟩] at hends
      cases hends
  exact fun h => hc.cancelled hended .readPipe (h.others .readPipe (by decide))

theorem sound_or_failed_step (c : Config) (e : Event) (d : Config) (hc : Sound c ∨ Failed c)
    (h : step c e = some d) : Sound d ∨ Failed d := by
  cases hc with
  | inr hc => exact .inr (failed_step hc h)
  | inl hc =>
    by_cases he : e = .finish .raised
    · rw [he] at h
      exact .inr (failed_of_raised hc h)
    · exact .inl (sound_step he hc h)

theorem settled_of_over (hover : c.tasks .processCommands ≠ .running)
    (hmain : c.mainEnded = false → c.tasks .processCommands ≠ .raised) : Settled c := by
  intro e he
  cases e with
  | arrive command => exact absurd rfl (he command)
  | get =>
    cases hqueue : c.commandQueue <;> simp [step, hqueue, hover]
  | finish result => simp [step, hover]
  | mainEnds => exact if_neg fun hends => hmain hends.2 hends.1

/-- When nothing is left to happen, every recognised command was attempted once
and in order and the other tasks run, exactly when no action has raised. -/
theorem commands_processed_iff {events : List Event} {c : Config}
    (hrun : run step initial events = some c) (hsettled : Settled c) :
    KeptGoing c ↔ .finish .raised ∉ events := by
  constructor
  · intro h hraised
    obtain ⟨earlier, later, hsplit⟩ := List.append_of_mem hraised
    rw [hsplit, run_append] at hrun
    obtain ⟨u, hearlier, hrun⟩ := Option.bind_eq_some_iff.mp hrun
    obtain ⟨v, hv, hlater⟩ := Option.bind_eq_some_iff.mp hrun
    have hu : Sound u ∨ Failed u :=
      run_invariant (I := fun c => Sound c ∨ Failed c) sound_or_failed_step (.inl sound_initial)
        hearlier
    have hfailed : Failed v := by
      cases hu with
      | inl hu => exact failed_of_raised hu hv
      | inr hu => exact failed_step hu hv
    have hc : Failed c := run_invariant (fun _ _ _ => failed_step) hfailed hlater
    exact not_keptGoing_of_failed hc hsettled h
  · intro hnone
    have hpermitted : ∀ e ∈ events, e ≠ .finish .raised := fun e he heq => hnone (heq ▸ he)
    have hc : Sound c :=
      run_invariant_of (fun _ _ _ he hc h => sound_step he hc h) sound_initial hpermitted hrun
    exact keptGoing_of_sound hc hsettled

/-- A hold and a return to launch arrive; the first ends in the given way. -/
def holdThenReturn (result : ActionResult) : List Event :=
  [.arrive "h", .arrive "r", .get, .finish result]

theorem commands_processed_returned : ∃ c,
    run step initial (holdThenReturn .returned ++ [.get, .finish .returned]) = some c ∧
      KeptGoing c := by
  have hrun : ∃ c, run step initial (holdThenReturn .returned ++ [.get, .finish .returned]) =
      some c ∧ c.tasks .processCommands = .running ∧ c.awaited = none ∧ c.commandQueue = [] :=
    ⟨_, rfl, rfl, rfl, rfl⟩
  obtain ⟨c, hrun, hrunning, hawaited, hqueue⟩ := hrun
  have hsettled : Settled c := by
    intro e he
    cases e with
    | arrive command => exact absurd rfl (he command)
    | get => simp [step, hqueue]
    | finish result => simp [step, hawaited]
    | mainEnds => simp [step, hrunning]
  exact ⟨c, hrun, (commands_processed_iff hrun hsettled).mpr (by decide)⟩

/-- The hold is denied: the return to launch is never attempted, and all tasks
are over. -/
theorem return_never_attempted : ∃ c,
    run step initial (holdThenReturn .raised ++ [.mainEnds]) = some c ∧ Settled c ∧
      c.arrived = ["h", "r"] ∧ c.attempted = [.hold] ∧ c.tasks .readPipe = .cancelled ∧
      ¬ KeptGoing c := by
  have hrun : ∃ c, run step initial (holdThenReturn .raised ++ [.mainEnds]) = some c ∧
      c.tasks .processCommands ≠ .running ∧ c.mainEnded = true ∧ c.arrived = ["h", "r"] ∧
      c.attempted = [.hold] ∧ c.tasks .readPipe = .cancelled :=
    ⟨_, rfl, by decide, rfl, rfl, rfl, rfl⟩
  obtain ⟨c, hrun, hover, hmain, harrived, hattempted, hcancelled⟩ := hrun
  refine ⟨c, hrun, settled_of_over hover fun h => ?_, harrived, hattempted, hcancelled, fun h => ?_⟩
  · exact absurd (hmain.symm.trans h) (by decide)
  · have hall := h.attempted
    rw [harrived, hattempted] at hall
    exact absurd hall (by decide)

end Cherum.CommandProcessing
