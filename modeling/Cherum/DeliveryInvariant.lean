import Cherum.CommandDelivery

/-! The invariant that ties the poller's place in its loop to the whole table:
rows are forwarded in the order of their ids, a row is marked done only after
it was forwarded, and the only forwarded row that may still be pending is the
last one, while its acknowledgement is under way or was lost. -/

namespace Cherum.DeliveryInvariant
open CommandServer hiding step
open ActionRuns CommandTable CommandPoller CommandDelivery HttpMessages PythonJson

def forwardedOf (sessions : List Session) : List ℕ := sessions.filterMap Session.row

/-- The poller's place in its loop agrees with the table and the sessions. -/
def Agrees (onError : String) (t : Table) (sessions : List Session) : Pc → Prop
  | .polling => True
  | .ended => True
  | .forwarding byte none => byte = commandByte (.str onError)
  | .forwarding byte (some id) =>
    ∃ r ∈ t.rows, id = .int r.id ∧ r.done = 0 ∧ byte = commandByte (.str r.command) ∧
      ∀ n ∈ forwardedOf sessions, n < r.id
  | .acknowledging id => ∃ n : ℕ, id = .int n ∧ (forwardedOf sessions).getLast? = some n

/-- The acknowledgement of row `n` is under way, or the poller has ended. -/
def Outstanding (pc : Pc) (n : ℕ) : Prop := pc = .acknowledging (.int n) ∨ pc = .ended

def Carries (pc : Pc) (n : ℕ) : Prop := ∃ byte, pc = .forwarding byte (some (.int n))

structure Inv (onError : String) (t : Table) (pc : Pc) (sessions : List Session)
    (fetched : List ℕ) : Prop where
  spaced : t.Spaced
  increasing : (forwardedOf sessions).Pairwise (· < ·)
  rowByte : ∀ n byte, ⟨some n, byte⟩ ∈ sessions →
    ∃ command, t.HasCommand n command ∧ byte = commandByte (.str command)
  failsafeByte : ∀ byte, ⟨none, byte⟩ ∈ sessions → byte = commandByte (.str onError)
  doneForwarded : ∀ r ∈ t.rows, r.done ≠ 0 → r.id ∈ forwardedOf sessions
  pendingLast : ∀ r ∈ t.rows, r.done = 0 → r.id ∈ forwardedOf sessions →
    Outstanding pc r.id ∧ (forwardedOf sessions).getLast? = some r.id
  agrees : Agrees onError t sessions pc
  fetchedForwarded : ∀ n ∈ fetched, n ∈ forwardedOf sessions ∨ Carries pc n ∨ pc = .ended

variable {onError : String} {t : Table} {pc : Pc} {sessions : List Session} {fetched : List ℕ}

theorem mem_forwardedOf {n : ℕ} :
    n ∈ forwardedOf sessions ↔ ∃ byte, ⟨some n, byte⟩ ∈ sessions := by
  unfold forwardedOf
  rw [List.mem_filterMap]
  constructor
  · intro h
    obtain ⟨s, hs, hrow⟩ := h
    refine ⟨s.byte, ?_⟩
    rw [← hrow]
    exact hs
  · intro h
    obtain ⟨byte, hs⟩ := h
    exact ⟨_, hs, rfl⟩

theorem Inv.forwarded_issued (h : Inv onError t pc sessions fetched) {n : ℕ}
    (hn : n ∈ forwardedOf sessions) : n ≤ t.sequence := by
  obtain ⟨byte, hs⟩ := mem_forwardedOf.mp hn
  obtain ⟨_, hcommand, _⟩ := h.rowByte n byte hs
  exact hcommand.issued

theorem inv_initial : Inv onError Table.empty .polling [] [] := by
  refine ⟨.nil, .nil, ?_, ?_, ?_, ?_, trivial, ?_⟩ <;> simp [Table.empty]

theorem Inv.settled (h : Inv onError t .polling sessions fetched) {r : CommandRow}
    (hr : r ∈ t.rows) (hn : r.id ∈ forwardedOf sessions) : r.done ≠ 0 := by
  intro hdone
  obtain ⟨hout, _⟩ := h.pendingLast r hr hdone hn
  simp [Outstanding] at hout

theorem Inv.post (h : Inv onError t pc sessions fetched) {u : Table} {command : String} {now : ℕ}
    (hins : t.insert command 0 now = some u) (hlater : ∀ r ∈ t.rows, r.createdAt < now) :
    Inv onError u pc sessions fetched := by
  have hnew : (t.nextRow command 0 now).id ∉ forwardedOf sessions := by
    intro hn
    have hle := h.forwarded_issued hn
    simp only [Table.nextRow] at hle
    omega
  refine ⟨Table.spaced_insert hins h.spaced hlater, h.increasing, ?_, h.failsafeByte, ?_, ?_, ?_,
    h.fetchedForwarded⟩
  · intro n byte hs
    obtain ⟨text, htext, hbyte⟩ := h.rowByte n byte hs
    exact ⟨text, Table.hasCommand_insert hins htext, hbyte⟩
  · intro r hr hdone
    cases (Table.mem_insert hins).mp hr with
    | inl hr => exact h.doneForwarded r hr hdone
    | inr hr => simp [hr, Table.nextRow] at hdone
  · intro r hr hdone hn
    cases (Table.mem_insert hins).mp hr with
    | inl hr => exact h.pendingLast r hr hdone hn
    | inr hr => exact absurd (hr ▸ hn) hnew
  · have hagrees := h.agrees
    cases pc with
    | forwarding byte id =>
      cases id with
      | none => exact hagrees
      | some id =>
        obtain ⟨r, hr, hrest⟩ := hagrees
        exact ⟨r, (Table.mem_insert hins).mpr (.inl hr), hrest⟩
    | _ => exact hagrees

theorem Inv.fetchPending (h : Inv onError t .polling sessions fetched) {r : CommandRow}
    (hr : t.newest? = some r) (hdone : r.done = 0) :
    Inv onError t (.forwarding (commandByte (.str r.command)) (some (.int r.id))) sessions
      (fetched ++ [r.id]) := by
  obtain ⟨hmem, hgreatest⟩ := Table.newest?_greatest hr
  have hnew : ∀ n ∈ forwardedOf sessions, n < r.id := by
    intro n hn
    obtain ⟨byte, hs⟩ := mem_forwardedOf.mp hn
    obtain ⟨_, ⟨q, hq, hid, _⟩, _⟩ := h.rowByte n byte hs
    have hle := hgreatest q hq
    have hne : q.id ≠ r.id := by
      intro heq
      have hqr := Table.eq_of_id hq hmem heq
      rw [← hid, hqr] at hn
      exact h.settled hmem hn hdone
    omega
  refine ⟨h.spaced, h.increasing, h.rowByte, h.failsafeByte, h.doneForwarded, ?_,
    ⟨r, hmem, rfl, hdone, rfl, hnew⟩, ?_⟩
  · intro q hq hpending hn
    exact absurd hpending (h.settled hq hn)
  · intro n hn
    cases List.mem_append.mp hn with
    | inl hn => cases h.fetchedForwarded n hn with
      | inl hf => exact .inl hf
      | inr hf => simp [Carries] at hf
    | inr hn =>
      rw [List.mem_singleton.mp hn]
      exact .inr (.inl ⟨_, rfl⟩)

theorem Inv.fetchDone (h : Inv onError t .polling sessions fetched) {r : CommandRow}
    (hr : r ∈ t.rows) (hdone : r.done ≠ 0) :
    Inv onError t .polling sessions (fetched ++ [r.id]) := by
  refine ⟨h.spaced, h.increasing, h.rowByte, h.failsafeByte, h.doneForwarded, h.pendingLast,
    trivial, ?_⟩
  intro n hn
  cases List.mem_append.mp hn with
  | inl hn => exact h.fetchedForwarded n hn
  | inr hn =>
    rw [List.mem_singleton.mp hn]
    exact .inl (h.doneForwarded r hr hdone)

theorem Inv.fetchFails (h : Inv onError t .polling sessions fetched) :
    Inv onError t (.forwarding (commandByte (.str onError)) none) sessions fetched := by
  refine ⟨h.spaced, h.increasing, h.rowByte, h.failsafeByte, h.doneForwarded, ?_, rfl, ?_⟩
  · intro r hr hpending hn
    exact absurd hpending (h.settled hr hn)
  · intro n hn
    cases h.fetchedForwarded n hn with
    | inl hf => exact .inl hf
    | inr hf => simp [Carries] at hf

theorem Inv.writeFailsafe {byte : Option CommandByte}
    (h : Inv onError t (.forwarding byte none) sessions fetched) :
    Inv onError t .polling (sessions ++ [⟨none, byte⟩]) fetched := by
  have hforwarded : forwardedOf (sessions ++ [⟨none, byte⟩]) = forwardedOf sessions := by
    simp [forwardedOf]
  refine ⟨h.spaced, by rw [hforwarded]; exact h.increasing, ?_, ?_, ?_, ?_, trivial, ?_⟩
  · intro n b hs
    simp only [List.mem_append, List.mem_singleton, Session.mk.injEq, reduceCtorEq, false_and,
      or_false] at hs
    exact h.rowByte n b hs
  · intro b hs
    cases List.mem_append.mp hs with
    | inl hs => exact h.failsafeByte b hs
    | inr hs =>
      have hb : b = byte := congrArg Session.byte (List.mem_singleton.mp hs)
      rw [hb]
      exact h.agrees
  · rw [hforwarded]
    exact h.doneForwarded
  · intro r hr hpending hn
    rw [hforwarded] at hn
    obtain ⟨hout, _⟩ := h.pendingLast r hr hpending hn
    simp [Outstanding] at hout
  · intro n hn
    rw [hforwarded]
    cases h.fetchedForwarded n hn with
    | inl hf => exact .inl hf
    | inr hf => simp [Carries] at hf

theorem Inv.writeRow {byte : Option CommandByte} {id : Json}
    (h : Inv onError t (.forwarding byte (some id)) sessions fetched) :
    Inv onError t (.acknowledging id) (sessions ++ [⟨routeId id, byte⟩]) fetched := by
  obtain ⟨r, hr, hid, hpending, hbyte, hlast⟩ := h.agrees
  have hroute : routeId id = some r.id := by
    rw [hid]
    rfl
  rw [hroute, hid]
  have hforwarded : forwardedOf (sessions ++ [⟨some r.id, byte⟩]) =
      forwardedOf sessions ++ [r.id] := by
    simp [forwardedOf]
  have hgetLast : (forwardedOf (sessions ++ [⟨some r.id, byte⟩])).getLast? = some r.id := by
    rw [hforwarded, List.getLast?_concat]
  refine ⟨h.spaced, ?_, ?_, ?_, ?_, ?_, ⟨r.id, rfl, hgetLast⟩, ?_⟩
  · rw [hforwarded]
    refine List.pairwise_append.mpr ⟨h.increasing, List.pairwise_singleton _ _, ?_⟩
    intro n hn m hm
    rw [List.mem_singleton.mp hm]
    exact hlast n hn
  · intro n b hs
    cases List.mem_append.mp hs with
    | inl hs => exact h.rowByte n b hs
    | inr hs =>
      simp only [List.mem_singleton, Session.mk.injEq, Option.some.injEq] at hs
      rw [hs.1, hs.2]
      exact ⟨r.command, ⟨r, hr, rfl, rfl⟩, hbyte⟩
  · intro b hs
    simp only [List.mem_append, List.mem_singleton, Session.mk.injEq, reduceCtorEq, false_and,
      or_false] at hs
    exact h.failsafeByte b hs
  · intro q hq hdone
    rw [hforwarded]
    exact List.mem_append_left _ (h.doneForwarded q hq hdone)
  · intro q hq hdone hn
    rw [hforwarded, List.mem_append, List.mem_singleton] at hn
    cases hn with
    | inl hn =>
      obtain ⟨hout, _⟩ := h.pendingLast q hq hdone hn
      simp [Outstanding] at hout
    | inr hn =>
      rw [hn]
      exact ⟨.inl rfl, hgetLast⟩
  · intro n hn
    rw [hforwarded, List.mem_append, List.mem_singleton]
    cases h.fetchedForwarded n hn with
    | inl hf => exact .inl (.inl hf)
    | inr hf =>
      simp only [Carries, Pc.forwarding.injEq, Option.some.injEq, hid, Json.int.injEq,
        reduceCtorEq, or_false] at hf
      obtain ⟨_, _, hrn⟩ := hf
      exact .inl (.inr (by omega))

theorem Inv.ends (h : Inv onError t pc sessions fetched) :
    Inv onError t .ended sessions fetched :=
  ⟨h.spaced, h.increasing, h.rowByte, h.failsafeByte, h.doneForwarded,
    fun r hr hpending hn => ⟨.inr rfl, (h.pendingLast r hr hpending hn).2⟩, trivial,
    fun _ _ => .inr (.inr rfl)⟩

theorem Inv.acknowledge {id : Json} {n : ℕ}
    (h : Inv onError t (.acknowledging id) sessions fetched) (hid : routeId id = some n) :
    Inv onError (t.markDone n) .polling sessions fetched := by
  obtain ⟨m, hm, hlast⟩ := h.agrees
  rw [hm, routeId_int, Option.some.injEq] at hid
  rw [hid] at hlast
  refine ⟨Table.spaced_markDone h.spaced, h.increasing, ?_, h.failsafeByte, ?_, ?_, trivial, ?_⟩
  · intro k byte hs
    obtain ⟨command, hcommand, hbyte⟩ := h.rowByte k byte hs
    exact ⟨command, Table.hasCommand_markDone hcommand, hbyte⟩
  · intro r hr hdone
    obtain ⟨q, hq, hid, _, _, hother⟩ := Table.mem_markDone hr
    rw [hid]
    by_cases hqn : q.id = n
    · rw [hqn]
      exact List.mem_of_getLast? hlast
    · rw [hother hqn] at hdone
      exact h.doneForwarded q hq hdone
  · intro r hr hpending hn
    obtain ⟨q, hq, hid, _, hmarked, hother⟩ := Table.mem_markDone hr
    by_cases hqn : q.id = n
    · rw [hmarked hqn] at hpending
      simp at hpending
    · rw [hother hqn] at hpending hn
      obtain ⟨_, hlast'⟩ := h.pendingLast q hq hpending hn
      rw [hlast, Option.some.injEq] at hlast'
      exact absurd hlast'.symm hqn
  · intro k hk
    cases h.fetchedForwarded k hk with
    | inl hf => exact .inl hf
    | inr hf => simp [Carries] at hf

def ConfigInv (onError : String) (c : Config) : Prop :=
  Inv onError c.table c.pc c.sessions c.fetched

theorem afterPoll_row (onError : String) (row : CommandRow) (now : ℕ) (db : Database) :
    afterPoll onError (.answered (serve db now (.fetch true (some row))).1) =
      if row.done = 0 then .forwarding (commandByte (.str row.command)) (some (.int row.id))
      else .polling := by
  have hplan := plan_row row
  simp only [afterPoll, poll, serve, fetch, if_true, Response.json, hplan]
  by_cases h : row.done = 0 <;> simp [h]

theorem afterPoll_noRow (onError : String) (now : ℕ) (db : Database) :
    afterPoll onError (.answered (serve db now (.fetch true none)).1) = .polling := by
  simp only [afterPoll, poll, serve, fetch, if_true, Response.json, plan_noRow]

theorem afterPoll_connectionError (onError : String) :
    afterPoll onError .connectionError = .forwarding (commandByte (.str onError)) none := by
  simp only [afterPoll, poll, plan_failsafe]

/-- An acknowledgement that reaches the server marks the row, and its answer is
read without an exception: the ids of the table are 64-bit numbers. -/
theorem serve_done {db : Database} {n : ℕ} (now : ℕ) (hn : n ≤ db.commands.sequence) :
    (serve db now (.done true n)).2.commands = db.commands.markDone n ∧
      afterDone (.answered (serve db now (.done true n)).1) = .polling := by
  have hbound : n < integerBound := lt_of_le_of_lt hn db.commands.sequence_bounded
  simp [serve, done, hbound, afterDone, markDone, Response.json]

theorem Inv.reaches {id : Json} {n now : ℕ} {s s' : Server}
    (h : Inv onError s.db.commands (.acknowledging id) sessions fetched) (hid : routeId id = some n)
    (hserver : CommandServer.step s (now, .done true n) = some s') :
    s'.db.commands = s.db.commands.markDone n ∧
      afterDone (.answered (serve s.db now (.done true n)).1) = .polling := by
  obtain ⟨m, hm, hlast⟩ := h.agrees
  obtain ⟨_, _, hs'⟩ := step_eq_some hserver
  rw [hm, routeId_int, Option.some.injEq] at hid
  rw [hs', ← hid]
  exact serve_done now (h.forwarded_issued (List.mem_of_getLast? hlast))

theorem ConfigInv.at_pc {c : Config} {pc : Pc} (hc : ConfigInv onError c) (hpc : c.pc = pc) :
    Inv onError c.table pc c.sessions c.fetched := hpc ▸ hc

theorem step_inv (c : Config) (a : Action) (d : Config) (hc : ConfigInv onError c)
    (h : step onError c a = some d) : ConfigInv onError d := by
  cases moves_of_step h with
  | post hlater hserver =>
    simp only [ConfigInv, Config.table]
    cases insert_of_command hserver with
    | inl hsame =>
      rw [hsame]
      exact hc
    | inr hins => exact Inv.post hc hins hlater
  | @fetch query now server hpc hserver =>
    obtain ⟨_, hquery, _⟩ := step_eq_some hserver
    have hnewest : query = c.table.newest? := Table.selects_of_spaced hc.spaced hquery
    have hpolling := hc.at_pc hpc
    simp only [ConfigInv, Config.table, commands_of_fetch hserver]
    cases query with
    | none =>
      rw [afterPoll_noRow, Option.map_none, Option.toList_none, List.append_nil]
      exact hpolling
    | some row =>
      rw [afterPoll_row]
      split
      · next hdone => exact hpolling.fetchPending hnewest.symm hdone
      · next hdone => exact hpolling.fetchDone (Table.newest?_greatest hnewest.symm).1 hdone
  | fetchFails hpc =>
    simp only [ConfigInv, afterPoll_connectionError]
    exact (hc.at_pc hpc).fetchFails
  | writeFailsafe hpc => exact (hc.at_pc hpc).writeFailsafe
  | writeRow hpc => exact (hc.at_pc hpc).writeRow
  | writeFails hpc => exact Inv.ends hc
  | noRoute hpc hid => exact Inv.ends hc
  | done hpc hid hserver =>
    obtain ⟨hmark, hpolling⟩ := (hc.at_pc hpc).reaches hid hserver
    simp only [ConfigInv, Config.table, hpolling, hmark]
    exact (hc.at_pc hpc).acknowledge hid
  | doneLost hpc hid hserver =>
    obtain ⟨hmark, _⟩ := (hc.at_pc hpc).reaches hid hserver
    simp only [ConfigInv, Config.table, hmark]
    exact ((hc.at_pc hpc).acknowledge hid).ends
  | doneFails hpc => exact Inv.ends hc

theorem run_inv {acts : List Action} {c : Config}
    (hrun : run (step onError) Config.initial acts = some c) : ConfigInv onError c :=
  have hinitial : ConfigInv onError Config.initial := inv_initial
  run_invariant step_inv hinitial hrun

end Cherum.DeliveryInvariant
