import Cherum.CommandSystem

/-! What the drone does, over every run of the whole system. Whatever is lost on
the way, nothing is executed that was not ordered, or twice, or out of order;
and all that the poller has written is executed or still on its way exactly as
long as the pipe loses nothing. -/

namespace Cherum.CommandExecution
open ActionRuns CommandPoller CommandTable CommandSystem OrderedChannel
open CommandDelivery (Session)
open CommandPipe (byteText byteText_ne_empty)
open CommandProcessing (DroneAction action?)
open DeliveryInvariant (ConfigInv)
open DeliveryGuarantees (Known outages)

def meaning : CommandByte → DroneAction
  | .l => .land
  | .h => .hold
  | .r => .returnToLaunch

/-- What the operators' commands ask of the drone. -/
def commands : List (String × DroneAction) :=
  [("land", .land), ("loiter", .hold), ("rtl", .returnToLaunch)]

def actionOf (command : String) : Option DroneAction := commands.lookup command

/-- What is on its way to `process_commands`: on its queue, held by `read_pipe`,
or unread. -/
def inTransit (s : System) : List DroneAction :=
  s.drone.commandQueue.filterMap action? ++ s.pipe.channel.pending.filterMap action?

/-- The action was ordered by the row of this id, which an operator posted, or
by the failsafe. -/
def Orders (onError : String) (t : Table) (acts : List Action) (action : DroneAction) :
    Option ℕ → Prop
  | some n => ∃ r ∈ t.rows, r.id = n ∧ actionOf r.command = some action ∧
      ∃ now, .delivery (.post r.command now) ∈ acts
  | none => actionOf onError = some action

def failedFetch : Action → Bool
  | .delivery .fetchFails => true
  | _ => false

/-- The step is none of those at which the pipe loses a byte. -/
def Kept (onError : String) (s : System) (a : Action) : Prop :=
  ∀ b ∈ (pipePart onError).labels a, CommandPipe.Keeps s.pipe b

variable {onError : String} {acts : List Action} {s t : System}

instance (c : CommandPipe.Config) (a : CommandPipe.Action) : Decidable (CommandPipe.Keeps c a) := by
  unfold CommandPipe.Keeps
  split
  · infer_instance
  · split <;> infer_instance
  · infer_instance
  · infer_instance
  · infer_instance

instance (s : System) (a : Action) : Decidable (Kept onError s a) :=
  inferInstanceAs (Decidable (∀ b ∈ (pipePart onError).labels a, CommandPipe.Keeps s.pipe b))

structure Inv (onError : String) (s : System) : Prop where
  joined : Joined s
  accounted : Accounted s.drone
  faithful : s.pipe.channel.Faithful
  delivery : ConfigInv onError s.delivery

theorem commandByte_meaning (command : String) :
    (commandByte (.str command)).map meaning = actionOf command := by
  rw [commandByte_str, actionOf, commands]
  simp only [List.lookup_cons, List.lookup_nil]
  cases command == "land" <;> cases command == "loiter" <;> cases command == "rtl" <;> rfl

theorem action_byteText (byte : CommandByte) : action? (byteText byte) = some (meaning byte) := by
  cases byte <;> rfl

theorem actions_byteTexts (bytes : List CommandByte) :
    (bytes.map byteText).filterMap action? = bytes.map meaning := by
  rw [List.filterMap_map, ← List.filterMap_eq_map]
  exact List.filterMap_congr fun byte _ => action_byteText byte

theorem action_empty : action? "" = none := by decide

theorem actions_nonempty (texts : List String) :
    (texts.filter (· ≠ "")).filterMap action? = texts.filterMap action? := by
  rw [List.filterMap_filter]
  refine List.filterMap_congr fun text _ => ?_
  by_cases hempty : text = ""
  · rw [hempty, action_empty]
    rfl
  · simp [hempty]

theorem inv_initial : Inv onError initial where
  joined := ⟨rfl, fun _ h => CommandPipe.WriterPc.noConfusion h, rfl⟩
  accounted := rfl
  faithful := .refl _
  delivery := DeliveryInvariant.inv_initial

theorem inv_step (s : System) (a : Action) (t : System) (hs : Inv onError s)
    (h : step onError s a = some t) : Inv onError t where
  joined := joined_step s a t hs.joined h
  accounted := run_invariant accounted_step hs.accounted ((dronePart onError).moves s a t h)
  faithful := run_invariant faithful_step hs.faithful ((pipePart onError).moves s a t h)
  delivery := run_invariant DeliveryInvariant.step_inv hs.delivery
    ((deliveryPart onError).moves s a t h)

theorem run_inv (hrun : run (step onError) initial acts = some s) : Inv onError s :=
  run_invariant inv_step inv_initial hrun

theorem attempted_inTransit (hs : Inv onError s) :
    s.drone.attempted ++ inTransit s =
      (s.pipe.channel.delivered ++ s.pipe.channel.pending).filterMap action? := by
  have hdelivered : s.pipe.channel.delivered.filterMap action? =
      s.drone.arrived.filterMap action? := by
    rw [hs.joined.queue]
    exact actions_nonempty s.pipe.commandQueue
  rw [inTransit, ← List.append_assoc, List.filterMap_append, hdelivered, ← hs.accounted]

theorem sent_actions (hs : Inv onError s) :
    s.pipe.channel.sent.filterMap action? = s.delivery.bytes.map meaning := by
  rw [← hs.joined.bytes]
  exact actions_byteTexts s.pipe.sent

theorem executed_sublist (hs : Inv onError s) :
    (s.drone.attempted ++ inTransit s).Sublist (s.delivery.bytes.map meaning) := by
  rw [attempted_inTransit hs, ← sent_actions hs]
  exact hs.faithful.filterMap _

theorem row_posted (hrun : run (step onError) initial acts = some s) :
    ∀ r ∈ s.delivery.table.rows, ∃ now, .delivery (.post r.command now) ∈ acts := by
  have hstep : ∀ (c : CommandDelivery.Config) a d, a ∈ (deliveryPart onError).trace acts →
      (∀ r ∈ c.table.rows, ∃ now, .post r.command now ∈ (deliveryPart onError).trace acts) →
      CommandDelivery.step onError c a = some d →
      ∀ r ∈ d.table.rows, ∃ now, .post r.command now ∈ (deliveryPart onError).trace acts := by
    intro c a d ha hc h r hr
    rcases CommandDelivery.step_table h with hsame | ⟨command, now, hpost, _, hins⟩ | ⟨n, hmark⟩
    · rw [hsame] at hr
      exact hc r hr
    · cases (Table.mem_insert hins).mp hr with
      | inl hr => exact hc r hr
      | inr hr =>
        rw [hr]
        exact ⟨now, hpost ▸ ha⟩
    · rw [hmark] at hr
      obtain ⟨q, hq, _, hcommand, _⟩ := Table.mem_markDone hr
      rw [hcommand]
      exact hc q hq
  have hempty : ∀ r ∈ CommandDelivery.Config.initial.table.rows,
      ∃ now, .post r.command now ∈ (deliveryPart onError).trace acts :=
    fun _ hr => absurd hr List.not_mem_nil
  intro r hr
  obtain ⟨now, hpost⟩ := run_invariant_of hstep hempty (fun _ ha => ha)
    ((deliveryPart onError).run_trace hrun) r hr
  obtain ⟨a, ha, hlabel⟩ := List.mem_flatMap.mp hpost
  refine ⟨now, ?_⟩
  cases a <;> simp [deliveryPart] at hlabel
  rw [hlabel]
  exact ha

theorem step_failsafes_le {c d : CommandDelivery.Config} {a : CommandDelivery.Action}
    (hc : ConfigInv onError c) (h : CommandDelivery.step onError c a = some d) :
    DeliveryGuarantees.failsafes d ≤ DeliveryGuarantees.failsafes c + outages [a] := by
  by_cases hd : d.pc = .ended
  · have hsessions : d.sessions = c.sessions := by
      cases DeliveryGuarantees.step_writes h with
      | inl hsame => exact hsame
      | inr hwrite =>
        obtain ⟨ha, _⟩ := hwrite
        rw [ha] at h
        cases CommandDelivery.moves_of_step h <;> cases hd
    rw [DeliveryGuarantees.failsafes, DeliveryGuarantees.failsafes, hd, hsessions]
    exact Nat.le_add_right_of_le (Nat.le_add_right _ _)
  · exact (DeliveryGuarantees.step_failsafes hc h hd).le

theorem failsafes_le {c d : CommandDelivery.Config} {labels : List CommandDelivery.Action}
    (hc : ConfigInv onError c) (hrun : run (CommandDelivery.step onError) c labels = some d) :
    DeliveryGuarantees.failsafes d ≤ DeliveryGuarantees.failsafes c + outages labels := by
  induction labels generalizing c with
  | nil =>
    rw [run_nil, Option.some.injEq] at hrun
    rw [hrun]
    exact Nat.le_add_right _ _
  | cons a rest ih =>
    obtain ⟨u, hu, hrest⟩ := Option.bind_eq_some_iff.mp hrun
    have hfirst := step_failsafes_le hc hu
    have hlater := ih (DeliveryInvariant.step_inv c a u hc hu) hrest
    have hcount : outages (a :: rest) = outages [a] + outages rest := by
      rw [← List.singleton_append]
      exact List.countP_append
    omega

theorem outages_trace (acts : List Action) :
    outages ((deliveryPart onError).trace acts) = acts.countP failedFetch := by
  induction acts with
  | nil => rfl
  | cons a rest ih =>
    have htrace : (deliveryPart onError).trace (a :: rest) =
        (deliveryPart onError).labels a ++ (deliveryPart onError).trace rest := rfl
    have hfirst : outages ((deliveryPart onError).labels a) = [a].countP failedFetch := by
      cases a with
      | delivery a => cases a <;> rfl
      | _ => rfl
    rw [htrace, outages, List.countP_append, ← List.singleton_append, List.countP_append]
    exact congrArg₂ _ hfirst ih

theorem attempted_sessions (hs : Inv onError s) :
    ∃ executed : List Session, executed.Sublist s.delivery.sessions ∧
      List.Forall₂ (fun session action => session.byte.map meaning = some action) executed
        s.drone.attempted := by
  have hsub : s.drone.attempted.Sublist
      (s.delivery.sessions.filterMap fun session => session.byte.map meaning) := by
    have hwhole := (List.sublist_append_left _ (inTransit s)).trans (executed_sublist hs)
    rwa [CommandDelivery.Config.bytes, List.map_filterMap] at hwhole
  obtain ⟨executed, hexecuted, hactions⟩ := List.sublist_filterMap_iff.mp hsub
  refine ⟨executed.filter fun session => session.byte.isSome,
    List.filter_sublist.trans hexecuted, ?_⟩
  rw [hactions]
  clear hactions hexecuted
  induction executed with
  | nil => exact .nil
  | cons session rest ih =>
    cases hbyte : session.byte with
    | none => simpa [hbyte] using ih
    | some byte => simpa [hbyte] using ih

theorem session_orders (hrun : run (step onError) initial acts = some s) {session : Session}
    (hsession : session ∈ s.delivery.sessions) {action : DroneAction}
    (haction : session.byte.map meaning = some action) :
    Orders onError s.delivery.table acts action session.row := by
  have hs := (run_inv hrun).delivery
  obtain ⟨row, byte⟩ := session
  cases row with
  | none =>
    rw [hs.failsafeByte byte hsession, commandByte_meaning] at haction
    exact haction
  | some n =>
    obtain ⟨command, ⟨r, hr, hid, hcommand⟩, hbyte⟩ := hs.rowByte n byte hsession
    rw [hbyte, ← hcommand, commandByte_meaning] at haction
    exact ⟨r, hr, hid, haction, row_posted hrun r hr⟩

/-- In every run, what the drone was told to do was ordered: each action by a row
that an operator posted, by every row at most once and in the order of the rows,
or by the failsafe, at most once for each failed fetch. -/
theorem executed_in_order (hrun : run (step onError) initial acts = some s) :
    ∃ sources : List (Option ℕ),
      List.Forall₂ (fun source action => Orders onError s.delivery.table acts action source) sources
        s.drone.attempted ∧
      (sources.filterMap id).Pairwise (· < ·) ∧
      sources.count none ≤ acts.countP failedFetch := by
  have hs := run_inv hrun
  obtain ⟨executed, hsub, hactions⟩ := attempted_sessions hs
  refine ⟨executed.map Session.row, ?_, ?_, ?_⟩
  · rw [List.forall₂_map_left_iff]
    have hmem : List.Forall₂ (fun session action => session ∈ s.delivery.sessions ∧
        session.byte.map meaning = some action) executed s.drone.attempted :=
      (List.forall₂_and_left _ _).mpr ⟨fun session h => hsub.subset h, hactions⟩
    exact hmem.imp fun session action h => session_orders hrun h.1 h.2
  · rw [List.filterMap_map]
    exact hs.delivery.increasing.sublist (hsub.filterMap Session.row)
  · have hinitial : ConfigInv onError CommandDelivery.Config.initial :=
      DeliveryInvariant.inv_initial
    have hfailsafes := failsafes_le hinitial ((deliveryPart onError).run_trace hrun)
    have hzero : DeliveryGuarantees.failsafes CommandDelivery.Config.initial = 0 := rfl
    rw [hzero, outages_trace, Nat.zero_add, DeliveryGuarantees.failsafes] at hfailsafes
    have hcount : (executed.map Session.row).count none =
        executed.countP fun session => session.row.isNone := by
      rw [List.count, List.countP_map]
      refine List.countP_congr fun session _ => ?_
      cases hrow : session.row <;> simp [hrow]
    have hless := hsub.countP_le (p := fun session => session.row.isNone)
    rw [hcount]
    exact hless.trans ((Nat.le_add_right _ _).trans hfailsafes)

def session : Option CommandByte → List Action
  | none => [.pipe .readerOpen, .openPipe none, .pipe .firstRead, .write, .pipe .writerClose,
      .pipe .secondRead, .put [], .pipe .readerClose]
  | some byte => [.pipe .readerOpen, .openPipe (some byte), .pipe .firstRead, .write,
      .pipe .secondRead, .put [byte], .pipe .readerClose, .pipe .writerClose]

/-- Land, a text the poller does not know, return to launch, and an outage. -/
def flight : List Action :=
  [.delivery (.post "land" 1), .delivery (.fetch (some ⟨1, "land", 0, 1⟩) 2)] ++
    session (some .l) ++ [.delivery (.done 2), .drone .get, .drone (.finish .returned),
      .delivery (.post "dance" 3), .delivery (.fetch (some ⟨2, "dance", 0, 3⟩) 4)] ++
    session none ++ [.delivery (.done 4), .drone .get,
      .delivery (.post "rtl" 5), .delivery (.fetch (some ⟨3, "rtl", 0, 5⟩) 6)] ++
    session (some .r) ++ [.delivery (.done 6), .drone .get, .drone (.finish .returned),
      .delivery .fetchFails] ++
    session (some .h) ++ [.drone .get]

def flown : System := (run (step "loiter") initial flight).getD initial

theorem flight_run : run (step "loiter") initial flight = some flown := rfl

theorem flight_executed :
    flown.drone.attempted = [.land, .returnToLaunch, .hold] ∧
    ∃ sources : List (Option ℕ),
      List.Forall₂ (fun source action => Orders "loiter" flown.delivery.table flight action source)
        sources flown.drone.attempted ∧
      (sources.filterMap id).Pairwise (· < ·) ∧
      sources.count none ≤ flight.countP failedFetch :=
  ⟨rfl, executed_in_order flight_run⟩

theorem step_sessions (s : System) (a : Action) (t : System) (h : step onError s a = some t) :
    t.delivery.sessions = s.delivery.sessions ∨
      ∃ session, t.delivery.sessions = s.delivery.sessions ++ [session] := by
  cases moves_of_step h with
  | delivery _ hb => exact DeliveryGuarantees.step_sessions _ _ _ hb
  | write _ _ hb => exact DeliveryGuarantees.step_sessions _ _ _ hb
  | writeFails _ _ hb => exact DeliveryGuarantees.step_sessions _ _ _ hb
  | _ => exact .inl rfl

/-- A session of a row is the write of a poller that forwards this row. -/
theorem session_write (hs : Inv onError s) {a : Action} (h : step onError s a = some t)
    {earlier : List Session} {n : ℕ} {byte : Option CommandByte}
    (hbefore : s.delivery.sessions = earlier)
    (hafter : t.delivery.sessions = earlier ++ [⟨some n, byte⟩]) :
    a = .write ∧ s.delivery.pc = .forwarding byte (some (.int n)) ∧
      DeliveryGuarantees.owed t.delivery.pc = 0 := by
  have hgrown : t.delivery.sessions ≠ s.delivery.sessions := by
    rw [hafter, hbefore]
    exact fun h => List.cons_ne_nil _ _ (List.append_right_eq_self.mp h)
  have hwrites : ∀ {b : CommandDelivery.Action},
      CommandDelivery.step onError s.delivery b = some t.delivery → b = .write := fun hb =>
    (DeliveryGuarantees.step_writes hb).elim (fun hsame => absurd hsame hgrown) And.left
  cases moves_of_step h with
  | delivery haway hb =>
    rw [hwrites hb] at haway
    cases haway
  | writeFails _ _ hb => cases hwrites hb
  | write _ _ hb =>
    refine ⟨rfl, ?_⟩
    cases CommandDelivery.moves_of_step hb with
    | writeFailsafe => simp [hbefore] at hafter
    | writeRow hpc =>
      obtain ⟨r, _, hid, _⟩ := (hs.delivery.at_pc hpc).agrees
      simp only [hbefore, hid, List.append_cancel_left_eq, List.cons.injEq, Session.mk.injEq,
        CommandDelivery.routeId_int, Option.some.injEq, and_true] at hafter
      exact ⟨by rw [hpc, hid, hafter.1, hafter.2], rfl⟩
  | _ => exact absurd rfl hgrown

/-- A session of a row was written at one point of the run, and the failsafe sessions
since then are the failed fetches since then, once the poller polls again. -/
theorem run_session (hrun : run (step onError) initial acts = some s)
    (hpolling : s.delivery.pc = .polling) {earlier later : List Session} {n : ℕ}
    {byte : Option CommandByte}
    (hsessions : s.delivery.sessions = earlier ++ ⟨some n, byte⟩ :: later) :
    ∃ first second before, acts = first ++ .write :: second ∧
      run (step onError) initial first = some before ∧ before.delivery.sessions = earlier ∧
      before.delivery.pc = .forwarding byte (some (.int n)) ∧
      later.countP (fun session => session.row.isNone) = second.countP failedFetch := by
  obtain ⟨first, a, second, before, written, hacts, hfirst, hstep, hsecond, hbefore, hwritten⟩ :=
    run_log_split step_sessions hrun hsessions (Nat.zero_le _)
  obtain ⟨ha, hpc, howed⟩ := session_write (run_inv hfirst) hstep hbefore hwritten
  have hinv := (inv_step before a written (run_inv hfirst) hstep).delivery
  have hcount := DeliveryGuarantees.run_failsafes hinv ((deliveryPart onError).run_trace hsecond)
    (hpolling ▸ CommandDelivery.Pc.noConfusion)
  rw [outages_trace] at hcount
  refine ⟨first, second, before, ha ▸ hacts, hfirst, hbefore, hpc, ?_⟩
  simp only [DeliveryGuarantees.failsafes, deliveryPart, howed, hsessions, hwritten, hpolling,
    DeliveryGuarantees.owed_polling, List.countP_append, List.countP_cons, List.countP_nil] at hcount
  omega

end Cherum.CommandExecution
