import Cherum.DeliveryInvariant

/-! What the operators can rely on, and where it ends: commands are forwarded
at most once and in order; when the poller sees the newest command as done, the
pipe shows that command followed by the failsafe bytes of later outages only; a
command that was superseded before its fetch is not forwarded at all. -/

namespace Cherum.DeliveryGuarantees
open CommandServer hiding step
open ActionRuns CommandTable CommandPoller CommandDelivery DeliveryInvariant PythonJson

def Known (command : String) : Prop := (commandByte (.str command)).isSome

instance (command : String) : Decidable (Known command) :=
  inferInstanceAs (Decidable ((commandByte (.str command)).isSome = true))

def PostsKnown : Action → Prop
  | .post command _ => Known command
  | _ => True

variable {onError : String} {acts : List Action} {c d : Config}

def owed : Pc → ℕ
  | .forwarding _ none => 1
  | _ => 0

@[simp] theorem owed_polling : owed .polling = 0 := rfl

theorem step_writes {a : Action} (h : step onError c a = some d) :
    d.sessions = c.sessions ∨
      a = .write ∧ owed d.pc = 0 ∧ ∃ s, d.sessions = c.sessions ++ [s] := by
  cases moves_of_step h with
  | writeFailsafe => exact .inr ⟨rfl, rfl, _, rfl⟩
  | writeRow => exact .inr ⟨rfl, rfl, _, rfl⟩
  | _ => exact .inl rfl

theorem step_sessions (c : Config) (a : Action) (d : Config) (h : step onError c a = some d) :
    d.sessions = c.sessions ∨ ∃ s, d.sessions = c.sessions ++ [s] :=
  (step_writes h).imp_right fun hwrite => hwrite.2.2

def AllKnown (c : Config) : Prop := ∀ r ∈ c.table.rows, Known r.command

theorem step_allKnown (c : Config) (a : Action) (d : Config) (ha : PostsKnown a)
    (hc : AllKnown c) (h : step onError c a = some d) : AllKnown d := by
  intro r hr
  rcases step_table h with hsame | ⟨command, now, hpost, _, hins⟩ | ⟨n, hmark⟩
  · rw [hsame] at hr
    exact hc r hr
  · cases (Table.mem_insert hins).mp hr with
    | inl hr => exact hc r hr
    | inr hr =>
      rw [hpost] at ha
      rw [hr]
      exact ha
  · rw [hmark] at hr
    obtain ⟨q, hq, _, hcommand, _⟩ := Table.mem_markDone hr
    rw [hcommand]
    exact hc q hq

theorem run_allKnown (hrun : run (step onError) Config.initial acts = some c)
    (hposts : ∀ a ∈ acts, PostsKnown a) : AllKnown c := by
  have hinitial : AllKnown Config.initial := by
    intro r hr
    simp [Config.initial, Config.table, start, Database.empty, Table.empty] at hr
  exact run_invariant_of step_allKnown hinitial hposts hrun

theorem mem_written (hc : ConfigInv onError c) {r : CommandRow} (hr : r ∈ c.table.rows)
    (hknown : Known r.command) (hn : r.id ∈ c.forwarded) : r.id ∈ c.written := by
  obtain ⟨byte, hs⟩ := mem_forwardedOf.mp hn
  obtain ⟨command, ⟨q, hq, hid, hcommand⟩, hbyte⟩ := hc.rowByte r.id byte hs
  have hqr : q = r := Table.eq_of_id hq hr hid
  rw [← hcommand, hqr] at hbyte
  refine List.mem_filterMap.mpr ⟨_, List.mem_filter.mpr ⟨hs, ?_⟩, rfl⟩
  rw [hbyte]
  exact hknown

theorem written_eq_forwarded (hc : ConfigInv onError c) (hknown : AllKnown c) :
    c.written = c.forwarded := by
  unfold Config.written Config.forwarded
  rw [List.filterMap_filter]
  refine List.filterMap_congr fun s hs => ?_
  cases hrow : s.row with
  | none => simp
  | some n =>
    have hs' : ⟨some n, s.byte⟩ ∈ c.sessions := by
      rw [← hrow]
      exact hs
    obtain ⟨command, ⟨q, hq, _, hcommand⟩, hbyte⟩ := hc.rowByte n s.byte hs'
    have hsome : s.byte.isSome = true := by
      rw [hbyte, ← hcommand]
      exact hknown q hq
    simp [hsome]

/-- Commands are forwarded at most once and in order; a row is done only after
its byte was written; the one written row that may be pending is the last, and
then the poller is acknowledging it or has ended. -/
theorem forwarded_once_in_order (hrun : run (step onError) Config.initial acts = some c)
    (hposts : ∀ a ∈ acts, PostsKnown a) :
    c.written.Pairwise (· < ·) ∧
    (∀ r ∈ c.table.rows, r.done = 1 → r.id ∈ c.written) ∧
    (∀ q ∈ c.table.rows, ∀ r ∈ c.table.rows, q.id ∈ c.written → q.done = 0 →
      r.id ∈ c.written → r.done = 0 → q = r) ∧
    (∀ r ∈ c.table.rows, r.id ∈ c.written → r.done = 0 → c.written.getLast? = some r.id ∧
      (c.pc = .acknowledging (.int r.id) ∨ c.pc = .ended)) ∧
    ∀ more d, run (step onError) c more = some d → (∀ a ∈ more, PostsKnown a) →
      ∃ later, d.written = c.written ++ later ∧ ∀ n ∈ c.written, ∀ m ∈ later, n < m := by
  have hinv := run_inv hrun
  have hwritten := written_eq_forwarded hinv (run_allKnown hrun hposts)
  have hpending : ∀ r ∈ c.table.rows, r.id ∈ c.written → r.done = 0 →
      c.written.getLast? = some r.id ∧ Outstanding c.pc r.id := by
    intro r hr hn hdone
    rw [hwritten] at hn ⊢
    exact (hinv.pendingLast r hr hdone hn).symm
  refine ⟨hwritten ▸ hinv.increasing, ?_, ?_, hpending, ?_⟩
  · intro r hr hdone
    rw [hwritten]
    exact hinv.doneForwarded r hr (by omega)
  · intro q hq r hr hqn hqdone hrn hrdone
    have hlastq := (hpending q hq hqn hqdone).1
    have hlastr := (hpending r hr hrn hrdone).1
    rw [hlastq, Option.some.injEq] at hlastr
    exact Table.eq_of_id hq hr hlastr
  · intro more d hmore hknown
    have hboth : run (step onError) Config.initial (acts ++ more) = some d := by
      rw [run_append, hrun, Option.bind_some, hmore]
    have hallKnown : ∀ a ∈ acts ++ more, PostsKnown a := by
      intro a ha
      cases List.mem_append.mp ha with
      | inl ha => exact hposts a ha
      | inr ha => exact hknown a ha
    have hdinv := run_inv hboth
    have hdwritten := written_eq_forwarded hdinv (run_allKnown hboth hallKnown)
    obtain ⟨extra, hextra⟩ := run_log_prefix step_sessions hmore
    have hsplit : d.written = c.written ++ extra.filterMap Session.row := by
      rw [hwritten, hdwritten, Config.forwarded, ← hextra, List.filterMap_append]
      rfl
    have hsorted : d.written.Pairwise (· < ·) := hdwritten ▸ hdinv.increasing
    rw [hsplit] at hsorted
    exact ⟨_, hsplit, (List.pairwise_append.mp hsorted).2.2⟩

def landDelivered : List Action :=
  [.post "land" 1, .fetch (some ⟨1, "land", 0, 1⟩) 2, .write, .done 2]

/-- Land is delivered, then an outage, a return to launch, and another outage. -/
def returnDelivered : List Action :=
  landDelivered ++ [.fetchFails, .write, .post "rtl" 3, .fetch (some ⟨2, "rtl", 0, 3⟩) 4, .write,
    .done 4, .fetchFails, .write]

def returnConfig : Config :=
  (run (step "loiter") Config.initial returnDelivered).getD Config.initial

theorem returnConfig_run :
    run (step "loiter") Config.initial returnDelivered = some returnConfig := rfl

theorem returnDelivered_known : ∀ a ∈ returnDelivered, PostsKnown a := by
  simp [returnDelivered, landDelivered, PostsKnown, Known, commandByte, Json.isStr]

theorem return_forwarded_once :
    returnConfig.written = [1, 2] ∧ returnConfig.bytes = [.l, .h, .r, .h] ∧
    returnConfig.written.Pairwise (· < ·) ∧
      ∀ r ∈ returnConfig.table.rows, r.done = 1 → r.id ∈ returnConfig.written :=
  have h := forwarded_once_in_order returnConfig_run returnDelivered_known
  ⟨rfl, rfl, h.1, h.2.1⟩

def Failed : Action → Bool
  | .fetchFails => true
  | _ => false

def outages (acts : List Action) : ℕ := acts.countP Failed

def failsafes (c : Config) : ℕ := c.sessions.countP (fun s => s.row.isNone) + owed c.pc

theorem owed_afterPoll (onError : String) (query : Option CommandRow) (now : ℕ) (db : Database) :
    owed (afterPoll onError (.answered (serve db now (.fetch true query)).1)) = 0 := by
  cases query with
  | none => rw [afterPoll_noRow]; rfl
  | some row =>
    rw [afterPoll_row]
    split <;> rfl

theorem step_failsafes {a : Action} (hc : ConfigInv onError c) (h : step onError c a = some d)
    (hd : d.pc ≠ .ended) : failsafes d = failsafes c + outages [a] := by
  cases moves_of_step h with
  | post => rfl
  | fetch hpc hserver =>
    simp only [failsafes, owed_afterPoll, hpc]
    rfl
  | fetchFails hpc =>
    simp only [failsafes, afterPoll_connectionError, hpc]
    rfl
  | writeFailsafe hpc =>
    simp only [failsafes, hpc, List.countP_append]
    rfl
  | writeRow hpc =>
    obtain ⟨r, _, hid, _⟩ := (hc.at_pc hpc).agrees
    simp only [failsafes, hpc, hid, routeId_int, List.countP_append]
    rfl
  | writeFails => exact absurd rfl hd
  | noRoute => exact absurd rfl hd
  | done hpc hid hserver =>
    obtain ⟨_, hpolling⟩ := (hc.at_pc hpc).reaches hid hserver
    simp only [failsafes, hpolling, hpc]
    rfl
  | doneLost => exact absurd rfl hd
  | doneFails => exact absurd rfl hd

theorem step_ended {a : Action} (h : step onError c a = some d) (hc : c.pc = .ended) :
    d.pc = .ended := by
  cases moves_of_step h with
  | post => exact hc
  | writeFails => rfl
  | noRoute => rfl
  | doneLost => rfl
  | doneFails => rfl
  | fetch hpc => simp [hc] at hpc
  | fetchFails hpc => simp [hc] at hpc
  | writeFailsafe hpc => simp [hc] at hpc
  | writeRow hpc => simp [hc] at hpc
  | done hpc => simp [hc] at hpc

theorem run_failsafes (hc : ConfigInv onError c) (hrun : run (step onError) c acts = some d)
    (hd : d.pc ≠ .ended) : failsafes d = failsafes c + outages acts := by
  induction acts generalizing c with
  | nil =>
    rw [run_nil, Option.some.injEq] at hrun
    rw [hrun]
    rfl
  | cons a rest ih =>
    obtain ⟨u, hu, hrest⟩ := Option.bind_eq_some_iff.mp hrun
    have hended : u.pc ≠ .ended := fun h =>
      hd (run_invariant (I := fun c : Config => c.pc = .ended) (fun _ _ _ h hs => step_ended hs h)
        h hrest)
    have hfirst := step_failsafes hc hu hended
    have hlater := ih (step_inv c a u hc hu) hrest
    have hcount : outages (a :: rest) = outages [a] + outages rest := by
      rw [← List.singleton_append]
      exact List.countP_append
    omega

/-- A session was written at one point of the run, and the failsafe sessions
since then are the failed fetches since then, once the poller polls again. -/
theorem run_session (hrun : run (step onError) Config.initial acts = some c)
    (hpolling : c.pc = .polling) {earlier later : List Session} {s : Session}
    (hsessions : c.sessions = earlier ++ s :: later) :
    ∃ first second before, acts = first ++ .write :: second ∧
      run (step onError) Config.initial first = some before ∧ before.sessions = earlier ∧
      later.countP (fun s => s.row.isNone) = outages second := by
  obtain ⟨first, a, second, before, written, hacts, hfirst, hstep, hsecond, hbefore, hwritten⟩ :=
    run_log_split step_sessions hrun hsessions (Nat.zero_le _)
  have hinv : ConfigInv onError written := step_inv before a written (run_inv hfirst) hstep
  have hcount := run_failsafes hinv hsecond (by simp [hpolling])
  cases step_writes hstep with
  | inl hsame => simp [hwritten, hbefore] at hsame
  | inr hwrite =>
    obtain ⟨ha, howed, _⟩ := hwrite
    refine ⟨first, second, before, ha ▸ hacts, hfirst, hbefore, ?_⟩
    simp only [failsafes, howed, hsessions, hwritten, hpolling, owed_polling, List.countP_append,
      List.countP_cons, List.countP_nil] at hcount
    omega

theorem sessions_after_newest (hc : ConfigInv onError c) {row : CommandRow}
    (hnewest : c.table.newest? = some row) (hn : row.id ∈ c.forwarded) :
    ∃ earlier k, c.sessions = earlier ++ ⟨some row.id, commandByte (.str row.command)⟩ ::
      List.replicate k ⟨none, commandByte (.str onError)⟩ := by
  obtain ⟨hmem, hgreatest⟩ := Table.newest?_greatest hnewest
  obtain ⟨byte, hs⟩ := mem_forwardedOf.mp hn
  obtain ⟨command, ⟨q, hq, hid, hcommand⟩, hbyte⟩ := hc.rowByte row.id byte hs
  rw [← hcommand, Table.eq_of_id hq hmem hid] at hbyte
  obtain ⟨earlier, after, hsplit⟩ := List.append_of_mem hs
  have hsorted := hc.increasing
  simp only [forwardedOf, hsplit, List.filterMap_append, List.filterMap_cons] at hsorted
  have hlater := (List.pairwise_cons.mp (List.pairwise_append.mp hsorted).2.1).1
  have hafter : ∀ s ∈ after, s = ⟨none, commandByte (.str onError)⟩ := by
    intro s hs'
    have hmem' : s ∈ c.sessions := by
      rw [hsplit]
      exact List.mem_append_right _ (List.mem_cons_of_mem _ hs')
    obtain ⟨srow, sbyte⟩ := s
    cases srow with
    | none => rw [hc.failsafeByte sbyte hmem']
    | some m =>
      have hlt : row.id < m := hlater m (List.mem_filterMap.mpr ⟨_, hs', rfl⟩)
      obtain ⟨_, ⟨p, hp, hpm, _⟩, _⟩ := hc.rowByte m sbyte hmem'
      have hle := hgreatest p hp
      omega
  refine ⟨earlier, after.length, ?_⟩
  rw [hsplit, hbyte, ← List.eq_replicate_iff.mpr ⟨rfl, hafter⟩]

/-- When a fetch answers with a row that is done, that row is the newest, its
byte was written at one point of the run, and all that was written since is the
failsafe byte, once for each fetch that failed since: the last byte is the
command's if none did, else the failsafe's. -/
theorem pipe_when_newest_done (hrun : run (step onError) Config.initial acts = some c)
    (hposts : ∀ a ∈ acts, PostsKnown a) {row : CommandRow} {now : ℕ}
    (hfetch : step onError c (.fetch (some row) now) = some d) (hdone : row.done = 1) :
    c.table.newest? = some row ∧
    ∃ first second before byte, acts = first ++ .write :: second ∧
      run (step onError) Config.initial first = some before ∧
      commandByte (.str row.command) = some byte ∧
      c.sessions = before.sessions ++ ⟨some row.id, some byte⟩ ::
        List.replicate (outages second) ⟨none, commandByte (.str onError)⟩ ∧
      (outages second = 0 → c.bytes.getLast? = some byte) ∧
      (outages second ≠ 0 → ∀ failsafe, commandByte (.str onError) = some failsafe →
        c.bytes.getLast? = some failsafe) := by
  have hinv := run_inv hrun
  obtain ⟨hpolling, hquery⟩ := fetch_enabled hfetch
  have hnewest := (Table.selects_of_spaced hinv.spaced hquery).symm
  have hmem := (Table.newest?_greatest hnewest).1
  have hn : row.id ∈ c.forwarded := hinv.doneForwarded row hmem (by omega)
  obtain ⟨byte, hbyte⟩ := Option.isSome_iff_exists.mp (run_allKnown hrun hposts row hmem)
  obtain ⟨earlier, k, hsessions⟩ := sessions_after_newest hinv hnewest hn
  rw [hbyte] at hsessions
  obtain ⟨first, second, before, hacts, hfirst, hbefore, hcount⟩ :=
    run_session hrun hpolling hsessions
  simp only [List.countP_replicate, Option.isNone_none, if_true] at hcount
  rw [hcount, ← hbefore] at hsessions
  refine ⟨hnewest, first, second, before, byte, hacts, hfirst, hbyte, hsessions, ?_, ?_⟩
  · intro hzero
    simp [Config.bytes, hsessions, hzero]
  · intro hpos failsafe hfailsafe
    obtain ⟨k, hk⟩ := Nat.exists_eq_succ_of_ne_zero hpos
    simp only [Config.bytes, hsessions, hfailsafe, hk, Nat.succ_eq_add_one, List.replicate_succ',
      List.filterMap_append, ← List.cons_append, ← List.append_assoc, List.filterMap_cons,
      List.filterMap_nil, List.getLast?_concat]

theorem pipe_when_return_done :
    returnConfig.table.newest? = some ⟨2, "rtl", 1, 3⟩ ∧
    ∃ first second before byte, returnDelivered = first ++ .write :: second ∧
      run (step "loiter") Config.initial first = some before ∧
      commandByte (.str "rtl") = some byte ∧
      returnConfig.sessions = before.sessions ++ ⟨some 2, some byte⟩ ::
        List.replicate (outages second) ⟨none, some .h⟩ ∧
      (outages second = 0 → returnConfig.bytes.getLast? = some byte) ∧
      (outages second ≠ 0 → ∀ failsafe, commandByte (.str "loiter") = some failsafe →
        returnConfig.bytes.getLast? = some failsafe) := by
  have hfetch : ∃ d, step "loiter" returnConfig (.fetch (some ⟨2, "rtl", 1, 3⟩) 5) = some d :=
    ⟨_, rfl⟩
  obtain ⟨_, hd⟩ := hfetch
  exact pipe_when_newest_done returnConfig_run returnDelivered_known hd rfl

/-- Land is acknowledged, then one fetch fails; the next one finds land done,
and the drone was last told to loiter. -/
theorem failsafe_left_in_force :
    ∃ c d, run (step "loiter") Config.initial (landDelivered ++ [.fetchFails, .write]) = some c ∧
      c.table.newest? = some ⟨1, "land", 1, 1⟩ ∧
      step "loiter" c (.fetch (some ⟨1, "land", 1, 1⟩) 3) = some d ∧
      commandByte (.str "land") = some .l ∧ c.bytes.getLast? = some .h :=
  ⟨_, _, rfl, rfl, rfl, rfl, rfl⟩

/-- When a fetch answers `done = 1`, the last known command has been written,
unless a later command the poller does not know took its place before any
fetch answered with it. -/
theorem known_written_or_superseded (hrun : run (step onError) Config.initial acts = some c)
    {query : Option CommandRow} {now : ℕ} (hfetch : step onError c (.fetch query now) = some d)
    (hanswer : (fetchBody query).getItem "done" = .ok (.int 1)) {r : CommandRow}
    (hr : r ∈ c.table.rows) (hknown : Known r.command)
    (hlast : ∀ q ∈ c.table.rows, Known q.command → q.id ≤ r.id) :
    r.id ∈ c.written ∨
      r.id ∉ c.fetched ∧ ∃ u ∈ c.table.rows, r.id < u.id ∧ ¬ Known u.command := by
  have hinv := run_inv hrun
  obtain ⟨hpolling, hquery⟩ := fetch_enabled hfetch
  have hnewest : query = c.table.newest? := Table.selects_of_spaced hinv.spaced hquery
  by_cases hn : r.id ∈ c.forwarded
  · exact .inl (mem_written hinv hr hknown hn)
  · refine .inr ⟨fun hfetched => ?_, ?_⟩
    · have hplace := hinv.fetchedForwarded r.id hfetched
      rw [hpolling] at hplace
      simp only [Carries, reduceCtorEq, exists_false, or_false] at hplace
      exact hn hplace
    · cases query with
      | none =>
        have hempty := Table.newest?_eq_none.mp hnewest.symm
        rw [hempty] at hr
        simp at hr
      | some u =>
        obtain ⟨hu, hgreatest⟩ := Table.newest?_greatest hnewest.symm
        have hudone : u.done ≠ 0 := by
          intro hzero
          simp [fetchBody, Json.getItem, List.lookup, hzero] at hanswer
        have hforwarded := hinv.doneForwarded u hu hudone
        have hne : r.id ≠ u.id := fun heq => hn (heq ▸ hforwarded)
        have hle := hgreatest r hr
        have hlt : r.id < u.id := by omega
        refine ⟨u, hu, hlt, fun hk => ?_⟩
        have := hlast u hu hk
        omega

/-- After an outage a text the poller does not know takes the place of a return. -/
def supersededRun : List Action :=
  landDelivered ++ [.fetchFails, .write, .post "rtl" 3, .post "dance" 4,
    .fetch (some ⟨3, "dance", 0, 4⟩) 5, .write, .done 5]

def supersededConfig : Config :=
  (run (step "loiter") Config.initial supersededRun).getD Config.initial

theorem supersededConfig_run :
    run (step "loiter") Config.initial supersededRun = some supersededConfig := rfl

theorem return_superseded :
    supersededConfig.written = [1] ∧
    (2 ∈ supersededConfig.written ∨ 2 ∉ supersededConfig.fetched ∧
      ∃ u ∈ supersededConfig.table.rows, 2 < u.id ∧ ¬ Known u.command) := by
  have hfetch : ∃ d, step "loiter" supersededConfig (.fetch (some ⟨3, "dance", 1, 4⟩) 6) = some d :=
    ⟨_, rfl⟩
  obtain ⟨_, hd⟩ := hfetch
  have hr : (⟨2, "rtl", 0, 3⟩ : CommandRow) ∈ supersededConfig.table.rows := .tail _ (.head _)
  exact ⟨rfl, known_written_or_superseded supersededConfig_run hd rfl hr rfl (by decide)⟩

/-- Land is superseded by an unknown text before the poller fetches; the text is
acknowledged, the next fetch answers done, and nothing was ever written. -/
theorem land_suppressed :
    ∃ c d, run (step "loiter") Config.initial [.post "land" 1, .post "dance" 2,
        .fetch (some ⟨2, "dance", 0, 2⟩) 3, .write, .done 3] = some c ∧
      step "loiter" c (.fetch (some ⟨2, "dance", 1, 2⟩) 4) = some d ∧
      (fetchBody (some ⟨2, "dance", 1, 2⟩)).getItem "done" = .ok (.int 1) ∧
      Known "land" ∧ c.table.rows.map CommandRow.command = ["land", "dance"] ∧
      c.written = [] ∧ c.bytes = [] :=
  ⟨_, _, rfl, rfl, rfl, rfl, rfl, rfl, rfl⟩

end Cherum.DeliveryGuarantees
