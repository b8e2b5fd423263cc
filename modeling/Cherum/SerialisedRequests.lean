import Cherum.ConcurrentRequests

/-! The threads of the web server against a server that serves one request after
the other. A request takes effect when it commits, or, if it changes no command,
when it reads; the history lists the requests in this order. -/

namespace Cherum.SerialisedRequests
open CommandServer hiding step
open ActionRuns CommandTable ConcurrentRequests HttpMessages PythonJson

def threads (history : List (ℕ × ℕ × Request)) : List ℕ := history.map Prod.fst

/-- The server that serves the requests of the history one after the other. -/
def sequential (history : List (ℕ × ℕ × Request)) : Option Server :=
  run CommandServer.step start (history.map Prod.snd)

def Answers (history : List (ℕ × ℕ × Request)) (i : ℕ) (call : Call) (answer : Response) : Prop :=
  ∃ earlier now request later server, history = earlier ++ (i, now, request) :: later ∧
    callOf request = call ∧ sequential earlier = some server ∧
    (serve server.db now request).1 = answer

/-- Where a handler stands, it has taken effect or not. -/
def Place (history : List (ℕ × ℕ × Request)) (i : ℕ) : Handler → Prop
  | ⟨_, .begun⟩ => i ∉ threads history
  | ⟨call, .selected query⟩ =>
    call = .fetch true ∧ Answers history i call ⟨200, .json (fetchBody query)⟩
  | ⟨call, .executed request _ answer⟩ => callOf request = call ∧
    if isFetch request then Answers history i call answer else i ∉ threads history
  | ⟨call, .answered answer⟩ => answer = internalServerError ∨ Answers history i call answer

/-- A request that changes something has committed, and is not answered 500. -/
structure Effective (c : Running) : Prop where
  committed : ∀ e ∈ c.history, isFetch e.2.2 = false →
    ∃ call answer, c.handlers e.1 = some ⟨call, .answered answer⟩ ∧ answer.status ≠ 500
  executed : ∀ i call request now answer,
    c.handlers i = some ⟨call, .executed request now answer⟩ → answer.status ≠ 500

structure Inv (c : Running) : Prop where
  serial : ∃ server, sequential c.history = some server ∧
    server.db.commands = c.committed.commands ∧ server.clock = c.instant
  instant_le : c.instant ≤ c.clock
  held : ∀ i view, c.transaction = some (i, view) → ∃ call request now,
    c.handlers i = some ⟨call, .executed request now (serve c.committed now request).1⟩ ∧
    view = (serve c.committed now request).2 ∧ c.instant ≤ now ∧ now ≤ c.clock
  places : ∀ i h, c.handlers i = some h → Place c.history i h
  fresh : ∀ i, c.handlers i = none → i ∉ threads c.history
  once : (threads c.history).Nodup

variable {c d : Running} {a : Action}

theorem serve_congr {db db' : Database} (h : db.commands = db'.commands) (now : ℕ)
    (request : Request) :
    (serve db now request).1 = (serve db' now request).1 ∧
      (serve db now request).2.commands = (serve db' now request).2.commands := by
  obtain ⟨commands, pings⟩ := db
  obtain ⟨commands', pings'⟩ := db'
  have h : commands = commands' := h
  rw [h]
  cases request with
  | command form =>
    cases form with
    | none => exact ⟨rfl, rfl⟩
    | some text =>
      by_cases htext : text = ""
      · simp [serve, command, htext]
      · cases hins : commands'.insert text 0 now <;> simp [serve, command, htext, hins]
  | fetch authorised query => cases authorised <;> exact ⟨rfl, rfl⟩
  | done authorised id =>
    cases authorised with
    | false => exact ⟨rfl, rfl⟩
    | true => by_cases hid : id < integerBound <;> simp [serve, done, hid]

theorem instant_record (c : Running) (i now : ℕ) (request : Request) :
    (c.record i now request).instant = now := by
  simp only [Running.instant, Running.record, List.getLast?_concat, Option.map_some, Option.getD_some]

theorem Answers.append {history : List (ℕ × ℕ × Request)} {i : ℕ} {call : Call} {answer : Response}
    (h : Answers history i call answer) (e : ℕ × ℕ × Request) :
    Answers (history ++ [e]) i call answer := by
  obtain ⟨earlier, now, request, later, server, hhistory, hrest⟩ := h
  refine ⟨earlier, now, request, later ++ [e], server, ?_, hrest⟩
  rw [hhistory, List.append_assoc, List.cons_append]

theorem Place.append {history : List (ℕ × ℕ × Request)} {i j : ℕ} {h : Handler}
    (hplace : Place history i h) (hne : i ≠ j) (now : ℕ) (request : Request) :
    Place (history ++ [(j, now, request)]) i h := by
  have hnew : i ∉ threads history → i ∉ threads (history ++ [(j, now, request)]) := by
    intro hold hmem
    rw [threads, List.map_append, List.mem_append] at hmem
    cases hmem with
    | inl hmem => exact hold hmem
    | inr hmem => exact hne (List.mem_singleton.mp hmem)
  obtain ⟨call, pc⟩ := h
  cases pc with
  | begun => exact hnew hplace
  | selected query => exact ⟨hplace.1, hplace.2.append _⟩
  | executed own time answer =>
    refine ⟨hplace.1, ?_⟩
    have hrest := hplace.2
    by_cases hfetch : isFetch own = true
    · rw [if_pos hfetch] at hrest ⊢
      exact hrest.append _
    · rw [if_neg hfetch] at hrest ⊢
      exact hnew hrest
  | answered answer => exact hplace.imp_right fun h => h.append _

/-- A request that takes effect now is the next one of the sequential server. -/
theorem Inv.takes_effect (hc : Inv c) {i now : ℕ} {request : Request} (hclock : c.instant ≤ now)
    (hadmissible : request.Admissible c.committed) (hnew : i ∉ threads c.history) :
    (∃ server, sequential (c.history ++ [(i, now, request)]) = some server ∧
      server.db.commands = (serve c.committed now request).2.commands ∧ server.clock = now) ∧
    Answers (c.history ++ [(i, now, request)]) i (callOf request) (serve c.committed now request).1 ∧
    (threads (c.history ++ [(i, now, request)])).Nodup := by
  obtain ⟨server, hserver, hcommands, hinstant⟩ := hc.serial
  obtain ⟨hanswer, heffect⟩ := serve_congr hcommands now request
  have hadmissible : request.Admissible server.db := by
    cases request with
    | fetch authorised query =>
      cases authorised with
      | true =>
        unfold Request.Admissible at hadmissible ⊢
        rw [hcommands]
        exact hadmissible
      | false => trivial
    | _ => trivial
  have hstep : CommandServer.step server (now, request) = some ⟨(serve server.db now request).2, now⟩ :=
    if_pos ⟨hinstant ▸ hclock, hadmissible⟩
  refine ⟨⟨⟨(serve server.db now request).2, now⟩, ?_, heffect, rfl⟩, ?_, ?_⟩
  · rw [sequential, List.map_append, run_append]
    unfold sequential at hserver
    rw [hserver, Option.bind_some, List.map_singleton, run_cons, hstep]
    rfl
  · exact ⟨c.history, now, request, [], server, rfl, rfl, hserver, hanswer⟩
  · rw [threads, List.map_append]
    refine List.nodup_append.mpr ⟨hc.once, List.nodup_singleton _, fun j hj k hk heq => ?_⟩
    have hsame : j = i := heq.trans (List.mem_singleton.mp hk)
    exact hnew (hsame ▸ hj)

/-- A handler before its statement has taken no effect, unless it is a fetch
that has read its answer. -/
theorem statement_place {h : Handler} {request : Request} {history : List (ℕ × ℕ × Request)} {i : ℕ}
    (hrequest : statement h = some request) (hplace : Place history i h) (db : Database) (now : ℕ) :
    Place history i ⟨h.call, .executed request now (serve db now request).1⟩ := by
  unfold statement at hrequest
  split at hrequest
  · rw [Option.ite_none_left_eq_some, Option.some.injEq] at hrequest
    rw [← hrequest.2]
    exact ⟨rfl, hplace⟩
  · cases hrequest
    exact ⟨rfl, hplace.2⟩
  · cases hrequest
    exact ⟨rfl, hplace⟩
  · cases hrequest

theorem Inv.not_holder (hc : Inv c) {i : ℕ} {h : Handler} (hhandler : c.handlers i = some h)
    (hpc : ∀ request now answer, h.pc ≠ .executed request now answer) (view : Database) :
    c.transaction ≠ some (i, view) := by
  intro hview
  obtain ⟨call, request, now, hexecuted, _⟩ := hc.held i view hview
  rw [hhandler, Option.some.injEq] at hexecuted
  exact hpc _ _ _ (congrArg Handler.pc hexecuted)

section Update

variable {i : ℕ} {call : Call} {pc : Pc} (hc : Inv c)
  (hhandlers : d.handlers = Function.update c.handlers i (some ⟨call, pc⟩))

include hc hhandlers

theorem Inv.held_update
    (hother : ∀ j view, d.transaction = some (j, view) → c.transaction = some (j, view) ∧ j ≠ i)
    (hcommitted : d.committed = c.committed) (hinstant : d.instant = c.instant)
    (hclock : c.clock ≤ d.clock) :
    ∀ j view, d.transaction = some (j, view) → ∃ call request now,
      d.handlers j = some ⟨call, .executed request now (serve d.committed now request).1⟩ ∧
      view = (serve d.committed now request).2 ∧ d.instant ≤ now ∧ now ≤ d.clock := by
  intro j view hview
  obtain ⟨hview, hne⟩ := hother j view hview
  obtain ⟨call, request, now, hexecuted, hserve, hearlier, hlater⟩ := hc.held j view hview
  refine ⟨call, request, now, ?_, ?_, ?_, hlater.trans hclock⟩
  · rw [hhandlers, Function.update_of_ne hne, hcommitted]
    exact hexecuted
  · rw [hcommitted]
    exact hserve
  · rw [hinstant]
    exact hearlier

theorem Inv.places_update (hhistory : d.history = c.history)
    (hown : Place c.history i ⟨call, pc⟩) :
    (∀ j h, d.handlers j = some h → Place d.history j h) ∧
      ∀ j, d.handlers j = none → j ∉ threads d.history := by
  rw [hhandlers, hhistory]
  constructor
  · intro j h hj
    by_cases hij : j = i
    · rw [hij, Function.update_self, Option.some.injEq] at hj
      rw [hij, ← hj]
      exact hown
    · rw [Function.update_of_ne hij] at hj
      exact hc.places j h hj
  · intro j hj
    by_cases hij : j = i
    · rw [hij, Function.update_self] at hj
      cases hj
    · rw [Function.update_of_ne hij] at hj
      exact hc.fresh j hj

theorem Inv.places_record {now : ℕ} {request : Request}
    (hhistory : d.history = c.history ++ [(i, now, request)])
    (hown : Place (c.history ++ [(i, now, request)]) i ⟨call, pc⟩) :
    (∀ j h, d.handlers j = some h → Place d.history j h) ∧
      ∀ j, d.handlers j = none → j ∉ threads d.history := by
  rw [hhandlers, hhistory]
  constructor
  · intro j h hj
    by_cases hij : j = i
    · rw [hij, Function.update_self, Option.some.injEq] at hj
      rw [hij, ← hj]
      exact hown
    · rw [Function.update_of_ne hij] at hj
      exact (hc.places j h hj).append hij now request
  · intro j hj hmem
    by_cases hij : j = i
    · rw [hij, Function.update_self] at hj
      cases hj
    · rw [Function.update_of_ne hij] at hj
      rw [threads, List.map_append, List.mem_append] at hmem
      cases hmem with
      | inl hmem => exact hc.fresh j hj hmem
      | inr hmem => exact hij (List.mem_singleton.mp hmem)

end Update

theorem inv_initial : Inv initial where
  serial := ⟨start, rfl, rfl, rfl⟩
  instant_le := le_rfl
  held _ _ h := by cases h
  places _ _ h := by cases h
  fresh _ _ h := absurd h List.not_mem_nil
  once := .nil

theorem Inv.fails (hc : Inv c) {i : ℕ} {call : Call}
    (hhandlers : d.handlers = Function.update c.handlers i (some ⟨call, .answered internalServerError⟩))
    (hhistory : d.history = c.history) (hcommitted : d.committed = c.committed)
    (hclock : c.clock ≤ d.clock)
    (hother : ∀ j view, d.transaction = some (j, view) → c.transaction = some (j, view) ∧ j ≠ i) :
    Inv d := by
  have hinstant : d.instant = c.instant := by rw [Running.instant, Running.instant, hhistory]
  obtain ⟨hplaces, hfresh⟩ := hc.places_update hhandlers hhistory (.inl rfl)
  refine ⟨?_, ?_, hc.held_update hhandlers hother hcommitted hinstant hclock, hplaces, hfresh, ?_⟩
  · rw [hhistory, hcommitted, hinstant]
    exact hc.serial
  · rw [hinstant]
    exact hc.instant_le.trans hclock
  · rw [hhistory]
    exact hc.once

theorem Inv.reads (hc : Inv c) {i : ℕ} {call : Call} {pc after : Pc} {request : Request}
    (hhandler : c.handlers i = some ⟨call, pc⟩) (hbegun : pc = .begun)
    (hadmissible : request.Admissible c.committed)
    (hserve : (serve c.committed c.instant request).2.commands = c.committed.commands)
    (hplace : Answers (c.history ++ [(i, c.instant, request)]) i (callOf request)
        (serve c.committed c.instant request).1 →
      Place (c.history ++ [(i, c.instant, request)]) i ⟨call, after⟩) :
    Inv ((c.place i call after).record i c.instant request) := by
  have hnew : i ∉ threads c.history := by
    have hplace := hc.places i _ hhandler
    rwa [hbegun] at hplace
  have hpc : ∀ request now answer, (⟨call, pc⟩ : Handler).pc ≠ .executed request now answer := by
    intro request now answer hpc
    exact Pc.noConfusion (hbegun.symm.trans hpc)
  obtain ⟨⟨server, hserver, hcommands, hinstant⟩, hanswers, honce⟩ :=
    hc.takes_effect le_rfl hadmissible hnew
  obtain ⟨hplaces, hfresh⟩ := hc.places_record
    (d := (c.place i call after).record i c.instant request) rfl rfl (hplace hanswers)
  refine ⟨⟨server, hserver, hcommands.trans hserve, ?_⟩, ?_, ?_, hplaces, hfresh, honce⟩
  · rw [hinstant, instant_record]
  · rw [instant_record]
    exact hc.instant_le
  · refine hc.held_update rfl (fun j view hview => ⟨hview, fun hij => ?_⟩) rfl
      (instant_record _ _ _ _) le_rfl
    exact hc.not_holder hhandler hpc view (hij ▸ hview)

theorem inv_step (c : Running) (a : Action) (d : Running) (hc : Inv c) (hstep : step c a = some d) :
    Inv d := by
  cases moves_of_step hstep with
  | @arrive i call hnew =>
    obtain ⟨hplaces, hfresh⟩ :=
      hc.places_update (d := c.place i call .begun) rfl rfl (hc.fresh i hnew)
    refine ⟨hc.serial, hc.instant_le, ?_, hplaces, hfresh, hc.once⟩
    refine hc.held_update rfl (fun j view hview => ⟨hview, fun hij => ?_⟩) rfl rfl le_rfl
    obtain ⟨_, _, _, hexecuted, _⟩ := hc.held j view hview
    rw [hij, hnew] at hexecuted
    cases hexecuted
  | respond hbegun hrequest =>
    obtain ⟨hcall, hserve, hadmissible⟩ := unserved_serve hrequest c.committed c.instant
    refine hc.reads hbegun rfl hadmissible (congrArg Database.commands hserve) fun hanswers => ?_
    exact .inr (hcall ▸ hanswers)
  | select hbegun hquery =>
    exact hc.reads hbegun rfl hquery rfl fun hanswers => ⟨rfl, hanswers⟩
  | refuse hhandler hrequest =>
    refine hc.fails rfl rfl rfl le_rfl fun j view hview => ⟨hview, fun hij => ?_⟩
    exact hc.not_holder hhandler (statement_pc hrequest) view (hij ▸ hview)
  | executeFails hhandler _ hclock hfree =>
    refine hc.fails rfl rfl rfl hclock fun j view hview => ?_
    exact absurd (hfree.symm.trans hview) (Option.some_ne_none _).symm
  | raises hhandler _ =>
    refine hc.fails rfl rfl rfl le_rfl fun j view hview => ?_
    obtain ⟨hview, hne⟩ := Option.filter_eq_some_iff.mp hview
    exact ⟨hview, of_decide_eq_true hne⟩
  | @execute i now h request hhandler hrequest hclock hfree _ =>
    have hown := statement_place hrequest (hc.places i h hhandler) c.committed now
    obtain ⟨hplaces, hfresh⟩ := hc.places_update
      (d := { c.place i h.call (.executed request now (serve c.committed now request).1) with
        clock := now, transaction := some (i, (serve c.committed now request).2) }) rfl rfl hown
    refine ⟨hc.serial, hc.instant_le.trans hclock, fun j view hview => ?_, hplaces, hfresh, hc.once⟩
    rw [Option.some.injEq, Prod.mk.injEq] at hview
    refine ⟨h.call, request, now, ?_, hview.2.symm, hc.instant_le.trans hclock, le_rfl⟩
    rw [← hview.1]
    exact Function.update_self ..
  | @commitFetch i now call request answer view hexecuted hview hfetch =>
    obtain ⟨_, own, time, hown, hserve, _⟩ := hc.held i view hview
    rw [hexecuted, Option.some.injEq, Handler.mk.injEq, Pc.executed.injEq] at hown
    obtain ⟨_, hrequest, htime, _⟩ := hown
    have hplace := hc.places i _ hexecuted
    obtain ⟨hplaces, hfresh⟩ := hc.places_update
      (d := { c.place i call (.answered answer) with committed := view, transaction := none })
      rfl rfl (.inr (by simpa [Place, hfetch] using hplace.2))
    have hcommands : view.commands = c.committed.commands := by
      rw [hserve, ← hrequest]
      cases request with
      | fetch authorised query => cases authorised <;> rfl
      | command form => cases hfetch
      | done authorised id => cases hfetch
    refine ⟨?_, hc.instant_le, fun _ _ hview => absurd hview (Option.some_ne_none _).symm, hplaces, hfresh, hc.once⟩
    obtain ⟨server, hserver, hsame, hinstant⟩ := hc.serial
    exact ⟨server, hserver, hsame.trans hcommands.symm, hinstant⟩
  | @commit i now call request answer view hexecuted hview hfetch =>
    obtain ⟨_, own, time, hown, hserve, hearlier, hlater⟩ := hc.held i view hview
    rw [hexecuted, Option.some.injEq, Handler.mk.injEq, Pc.executed.injEq] at hown
    obtain ⟨_, hrequest, htime, hanswer⟩ := hown
    rw [← hrequest, ← htime] at hserve hanswer
    rw [← htime] at hearlier hlater
    have hplace := hc.places i _ hexecuted
    have hnew : i ∉ threads c.history := by simpa [Place, hfetch] using hplace.2
    have hadmissible : request.Admissible c.committed := by
      cases request with
      | fetch authorised query => cases hfetch
      | _ => trivial
    obtain ⟨⟨server, hserver, hcommands, hinstant⟩, hanswers, honce⟩ :=
      hc.takes_effect hearlier hadmissible hnew
    rw [hplace.1, ← hanswer] at hanswers
    obtain ⟨hplaces, hfresh⟩ := hc.places_record
      (d := Running.record { c.place i call (.answered answer) with
        committed := view, transaction := none } i now request) rfl rfl (.inr hanswers)
    refine ⟨⟨server, hserver, ?_, ?_⟩, ?_, fun _ _ hview => absurd hview (Option.some_ne_none _).symm, hplaces,
      hfresh, honce⟩
    · rw [hcommands, ← hserve]
      rfl
    · rw [hinstant, instant_record]
    · rw [instant_record]
      exact hlater

theorem effective_step (c : Running) (a : Action) (d : Running) (hc : Effective c)
    (h : step c a = some d) : Effective d := by
  obtain ⟨i, call, pc, hpending, hhandlers, hexecuted, hhistory⟩ := step_handlers h
  constructor
  · intro e he hfetch
    have hold : e ∈ c.history → ∃ call answer, d.handlers e.1 = some ⟨call, .answered answer⟩ ∧
        answer.status ≠ 500 := by
      intro he
      obtain ⟨own, answer, hanswered, hstatus⟩ := hc.committed e he hfetch
      exact ⟨own, answer, answered_stays h hanswered, hstatus⟩
    cases hhistory with
    | inl hsame => exact hold (hsame ▸ he)
    | inr hmore =>
      obtain ⟨now, request, hmore, heffect⟩ := hmore
      rw [hmore] at he
      cases List.mem_append.mp he with
      | inl he => exact hold he
      | inr he =>
        rw [List.mem_singleton.mp he] at hfetch ⊢
        obtain ⟨answer, hpc, hstatus⟩ := heffect hfetch
        refine ⟨call, answer, ?_, ?_⟩
        · rw [hhandlers, Function.update_self, hpc]
        · cases hstatus with
          | inl hstatus => exact hstatus
          | inr hheld =>
            obtain ⟨own, time, hheld⟩ := hheld
            exact hc.executed i own request time answer hheld
  · intro j own request now answer hj
    rw [hhandlers] at hj
    by_cases hij : j = i
    · rw [hij, Function.update_self, Option.some.injEq, Handler.mk.injEq] at hj
      exact hexecuted request now answer hj.2
    · rw [Function.update_of_ne hij] at hj
      exact hc.executed j own request now answer hj

theorem later_effects {more : List Action} (hrun : run step c more = some d) :
    ∃ later, d.history = c.history ++ later ∧
      ∀ e ∈ later, ∀ call answer, c.handlers e.1 ≠ some ⟨call, .answered answer⟩ := by
  induction more generalizing c with
  | nil =>
    rw [run_nil, Option.some.injEq] at hrun
    rw [hrun]
    exact ⟨[], (List.append_nil _).symm, fun _ he => absurd he List.not_mem_nil⟩
  | cons a rest ih =>
    obtain ⟨u, hu, hrest⟩ := Option.bind_eq_some_iff.mp hrun
    obtain ⟨later, hlater, hnew⟩ := ih hrest
    have hkept : ∀ e ∈ later, ∀ call answer, c.handlers e.1 ≠ some ⟨call, .answered answer⟩ :=
      fun e he call answer hanswered => hnew e he call answer (answered_stays hu hanswered)
    obtain ⟨i, _, _, hpending, _, _, hhistory⟩ := step_handlers hu
    cases hhistory with
    | inl hsame => exact ⟨later, hsame ▸ hlater, hkept⟩
    | inr hmore =>
      obtain ⟨now, request, hmore, _⟩ := hmore
      refine ⟨(i, now, request) :: later, ?_, fun e he => ?_⟩
      · rw [hlater, hmore, List.append_assoc, List.singleton_append]
      · cases List.mem_cons.mp he with
        | inl he =>
          rw [he]
          exact hpending
        | inr he => exact hkept e he

/-- Every run of the threads is a run of the server that serves one request after
the other: the same commands, and every answer is the one given there, at a point
between the arrival of the request and its answer, or 500; a request is served at
most once, not before it arrives, and one that is answered 500 has changed no command. -/
theorem requests_serialised {acts : List Action} (hrun : run step initial acts = some c) :
    (∃ server, sequential c.history = some server ∧
      server.db.commands = c.committed.commands) ∧
    (threads c.history).Nodup ∧
    (∀ i, c.handlers i = none → i ∉ threads c.history) ∧
    (∀ i call answer, c.handlers i = some ⟨call, .answered answer⟩ →
      answer = internalServerError ∨ Answers c.history i call answer) ∧
    (∀ e ∈ c.history, ∀ call, c.handlers e.1 = some ⟨call, .answered internalServerError⟩ →
      isFetch e.2.2 = true) ∧
    ∀ more d, run step c more = some d → ∃ later, d.history = c.history ++ later ∧
      ∀ e ∈ later, ∀ call answer, c.handlers e.1 ≠ some ⟨call, .answered answer⟩ := by
  have hinv : Inv c := run_invariant inv_step inv_initial hrun
  have heffective : Effective c := by
    have hinitial : Effective initial :=
      ⟨fun _ he => absurd he List.not_mem_nil, fun _ _ _ _ _ h => by cases h⟩
    exact run_invariant effective_step hinitial hrun
  obtain ⟨server, hserver, hcommands, _⟩ := hinv.serial
  refine ⟨⟨server, hserver, hcommands⟩, hinv.once, hinv.fresh, fun i call answer hanswered => ?_,
    fun e he call hanswered => ?_, fun more d hmore => later_effects hmore⟩
  · exact hinv.places i _ hanswered
  · by_contra hfetch
    obtain ⟨own, answer, hother, hstatus⟩ :=
      heffective.committed e he (Bool.eq_false_of_not_eq_true hfetch)
    rw [hanswered, Option.some.injEq, Handler.mk.injEq, Pc.answered.injEq] at hother
    exact hstatus (hother.2 ▸ rfl)

/-- A fetch reads before a command is posted, and writes its ping after that. -/
def overlapping : List Action :=
  [.arrive 0 (.fetch true), .arrive 1 (.command (some "land")), .select 0 none, .execute 1 5,
    .commit 1, .execute 0 6, .commit 0]

theorem overlapping_serialised : ∃ c, run step initial overlapping = some c ∧
    c.history = [(0, 0, .fetch true none), (1, 5, .command (some "land"))] ∧
    (∃ server, sequential c.history = some server ∧
      server.db.commands = c.committed.commands) ∧
    (threads c.history).Nodup ∧
    (∀ i, c.handlers i = none → i ∉ threads c.history) ∧
    (∀ i call answer, c.handlers i = some ⟨call, .answered answer⟩ →
      answer = internalServerError ∨ Answers c.history i call answer) := by
  have hrun : ∃ c, run step initial overlapping = some c ∧
      c.history = [(0, 0, .fetch true none), (1, 5, .command (some "land"))] := ⟨_, rfl, rfl⟩
  obtain ⟨c, hc, hhistory⟩ := hrun
  obtain ⟨hserial, honce, harrival, hanswers, _⟩ := requests_serialised hc
  exact ⟨c, hc, hhistory, hserial, honce, harrival, hanswers⟩

end Cherum.SerialisedRequests
