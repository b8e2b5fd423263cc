import Cherum.CommandPipe
import Cherum.CommandProcessing
import Cherum.ComponentRuns
import Cherum.DeliveryGuarantees

/-! The whole way of a command: operators, server and poller on one side of the
command pipe, `read_pipe` and `process_commands` on the other. The poller is in
its session on the pipe from the open to the close and does nothing else in it.
controller.py runs on one thread: `read_pipe` awaits nothing between its open
and its close, so the other tasks move only while it sleeps. -/

namespace Cherum.CommandSystem
open ActionRuns CommandPoller CommandTable ComponentRuns
open CommandDelivery (Pc Session)
open CommandPipe (byteText decodeStrip)
open CommandProcessing (DroneAction action?)

structure System where
  delivery : CommandDelivery.Config
  pipe : CommandPipe.Config
  drone : CommandProcessing.Config

def initial : System :=
  ⟨CommandDelivery.Config.initial, CommandPipe.initial, CommandProcessing.initial⟩

inductive Action
  | delivery (a : CommandDelivery.Action)
  | openPipe (byte : Option CommandByte)
  | write
  /-- The write finds no reader: `BrokenPipeError`. -/
  | writeFails
  | pipe (a : CommandPipe.Action)
  | put (data : List CommandByte)
  | drone (e : CommandProcessing.Event)

def carried : Pc → Option (Option CommandByte)
  | .forwarding byte _ => some byte
  | _ => none

/-- Operators post at any time; the poller sends requests between its sessions. -/
def away (writer : CommandPipe.WriterPc) : CommandDelivery.Action → Bool
  | .post _ _ => true
  | .write => false
  | .writeFails => false
  | _ => writer = .idle

/-- The steps on the pipe that no other part takes with it. -/
def alone (drone : CommandProcessing.Config) : CommandPipe.Action → Bool
  | .writerClose => true
  | .writerOpen _ => false
  | .writerFlush => false
  | .put => false
  | _ => drone.tasks .readPipe = .running

def own : CommandProcessing.Event → Bool
  | .arrive _ => false
  | _ => true

def step (onError : String) (s : System) : Action → Option System
  | .delivery a =>
    if away s.pipe.writer a then
      (CommandDelivery.step onError s.delivery a).map fun delivery => { s with delivery }
    else none
  | .openPipe byte =>
    if carried s.delivery.pc = some byte then
      (CommandPipe.step s.pipe (.writerOpen byte)).map fun pipe => { s with pipe }
    else none
  | .write =>
    (CommandPipe.step s.pipe .writerFlush).bind fun pipe =>
      if pipe.writer = .flushed then
        (CommandDelivery.step onError s.delivery .write).map fun delivery =>
          { s with delivery, pipe }
      else none
  | .writeFails =>
    (CommandPipe.step s.pipe .writerFlush).bind fun pipe =>
      if pipe.writer = .ended then
        (CommandDelivery.step onError s.delivery .writeFails).map fun delivery =>
          { s with delivery, pipe }
      else none
  | .pipe a =>
    if alone s.drone a then
      (CommandPipe.step s.pipe a).map fun pipe => { s with pipe }
    else none
  | .put data =>
    if s.pipe.reader = .holding data then
      (CommandPipe.step s.pipe .put).bind fun pipe =>
        (CommandProcessing.step s.drone (.arrive (decodeStrip data))).map fun drone =>
          { s with pipe, drone }
    else none
  | .drone e =>
    if own e ∧ s.pipe.reader = .sleeping then
      (CommandProcessing.step s.drone e).map fun drone => { s with drone }
    else none

inductive Moves (onError : String) (s : System) : Action → System → Prop
  | delivery {a : CommandDelivery.Action} {delivery : CommandDelivery.Config}
      (haway : away s.pipe.writer a = true)
      (h : CommandDelivery.step onError s.delivery a = some delivery) :
      Moves onError s (.delivery a) { s with delivery }
  | openPipe {byte : Option CommandByte} {pipe : CommandPipe.Config}
      (hcarried : carried s.delivery.pc = some byte)
      (h : CommandPipe.step s.pipe (.writerOpen byte) = some pipe) :
      Moves onError s (.openPipe byte) { s with pipe }
  | write {pipe : CommandPipe.Config} {delivery : CommandDelivery.Config}
      (hpipe : CommandPipe.step s.pipe .writerFlush = some pipe)
      (hflushed : pipe.writer = .flushed)
      (hdelivery : CommandDelivery.step onError s.delivery .write = some delivery) :
      Moves onError s .write { s with delivery, pipe }
  | writeFails {pipe : CommandPipe.Config} {delivery : CommandDelivery.Config}
      (hpipe : CommandPipe.step s.pipe .writerFlush = some pipe)
      (hended : pipe.writer = .ended)
      (hdelivery : CommandDelivery.step onError s.delivery .writeFails = some delivery) :
      Moves onError s .writeFails { s with delivery, pipe }
  | pipe {a : CommandPipe.Action} {pipe : CommandPipe.Config} (halone : alone s.drone a = true)
      (h : CommandPipe.step s.pipe a = some pipe) : Moves onError s (.pipe a) { s with pipe }
  | put {data : List CommandByte} {pipe : CommandPipe.Config} {drone : CommandProcessing.Config}
      (hholding : s.pipe.reader = .holding data)
      (hpipe : CommandPipe.step s.pipe .put = some pipe)
      (hdrone : CommandProcessing.step s.drone (.arrive (decodeStrip data)) = some drone) :
      Moves onError s (.put data) { s with pipe, drone }
  | drone {e : CommandProcessing.Event} {drone : CommandProcessing.Config} (hown : own e = true)
      (hsleeping : s.pipe.reader = .sleeping)
      (h : CommandProcessing.step s.drone e = some drone) : Moves onError s (.drone e) { s with drone }

variable {onError : String} {s t : System} {a : Action}

theorem moves_of_step (h : step onError s a = some t) : Moves onError s a t := by
  cases a with
  | delivery a =>
    simp only [step, Option.ite_none_right_eq_some] at h
    obtain ⟨haway, h⟩ := h
    obtain ⟨delivery, hdelivery, ht⟩ := Option.map_eq_some_iff.mp h
    exact ht ▸ .delivery haway hdelivery
  | openPipe byte =>
    simp only [step, Option.ite_none_right_eq_some] at h
    obtain ⟨hcarried, h⟩ := h
    obtain ⟨pipe, hpipe, ht⟩ := Option.map_eq_some_iff.mp h
    exact ht ▸ .openPipe hcarried hpipe
  | write =>
    obtain ⟨pipe, hpipe, h⟩ := Option.bind_eq_some_iff.mp h
    rw [Option.ite_none_right_eq_some] at h
    obtain ⟨delivery, hdelivery, ht⟩ := Option.map_eq_some_iff.mp h.2
    exact ht ▸ .write hpipe h.1 hdelivery
  | writeFails =>
    obtain ⟨pipe, hpipe, h⟩ := Option.bind_eq_some_iff.mp h
    rw [Option.ite_none_right_eq_some] at h
    obtain ⟨delivery, hdelivery, ht⟩ := Option.map_eq_some_iff.mp h.2
    exact ht ▸ .writeFails hpipe h.1 hdelivery
  | pipe a =>
    simp only [step, Option.ite_none_right_eq_some] at h
    obtain ⟨halone, h⟩ := h
    obtain ⟨pipe, hpipe, ht⟩ := Option.map_eq_some_iff.mp h
    exact ht ▸ .pipe halone hpipe
  | put data =>
    simp only [step, Option.ite_none_right_eq_some] at h
    obtain ⟨hholding, h⟩ := h
    obtain ⟨pipe, hpipe, h⟩ := Option.bind_eq_some_iff.mp h
    obtain ⟨drone, hdrone, ht⟩ := Option.map_eq_some_iff.mp h
    exact ht ▸ .put hholding hpipe hdrone
  | drone e =>
    simp only [step, Option.ite_none_right_eq_some] at h
    obtain ⟨⟨hown, hsleeping⟩, h⟩ := h
    obtain ⟨drone, hdrone, ht⟩ := Option.map_eq_some_iff.mp h
    exact ht ▸ .drone hown hsleeping hdrone

theorem run_one {σ α : Type*} {part : σ → α → Option σ} {c d : σ} {b : α}
    (h : part c b = some d) : run part c [b] = some d := by
  rw [run_cons, h, Option.bind_some, run_nil]

def deliveryPart (onError : String) : Component (step onError) (CommandDelivery.step onError) where
  state := System.delivery
  labels
    | .delivery a => [a]
    | .write => [.write]
    | .writeFails => [.writeFails]
    | _ => []
  moves s a t hstep := by
    cases moves_of_step hstep with
    | delivery _ h => exact run_one h
    | write _ _ h => exact run_one h
    | writeFails _ _ h => exact run_one h
    | _ => rfl

def pipePart (onError : String) : Component (step onError) CommandPipe.step where
  state := System.pipe
  labels
    | .openPipe byte => [.writerOpen byte]
    | .write => [.writerFlush]
    | .writeFails => [.writerFlush]
    | .pipe a => [a]
    | .put _ => [.put]
    | _ => []
  moves s a t hstep := by
    cases moves_of_step hstep with
    | openPipe _ h => exact run_one h
    | write h => exact run_one h
    | writeFails h => exact run_one h
    | pipe _ h => exact run_one h
    | put _ h => exact run_one h
    | _ => rfl

def dronePart (onError : String) : Component (step onError) CommandProcessing.step where
  state := System.drone
  labels
    | .put data => [.arrive (decodeStrip data)]
    | .drone e => [e]
    | _ => []
  moves s a t hstep := by
    cases moves_of_step hstep with
    | put _ _ h => exact run_one h
    | drone _ _ h => exact run_one h
    | _ => rfl

section Pipe

variable {c d : CommandPipe.Config}

theorem flush_writes (h : CommandPipe.step c .writerFlush = some d) :
    ∃ byte, c.writer = .opened byte ∧ d.commandQueue = c.commandQueue ∧
      (d.writer = .flushed ∧ d.sent = c.sent ++ byte.toList ∨
        d.writer = .ended ∧ d.sent = c.sent) := by
  simp only [CommandPipe.step] at h
  split at h
  · next hwriter =>
    cases h
    exact ⟨none, hwriter, rfl, .inl ⟨rfl, (List.append_nil _).symm⟩⟩
  · next byte hwriter =>
    split at h
    · cases h
      exact ⟨some byte, hwriter, rfl, .inl ⟨rfl, rfl⟩⟩
    · cases h
      exact ⟨some byte, hwriter, rfl, .inr ⟨rfl, rfl⟩⟩
  · cases h

theorem alone_frame {drone : CommandProcessing.Config} {a : CommandPipe.Action}
    (halone : alone drone a = true) (h : CommandPipe.step c a = some d) :
    d.sent = c.sent ∧ d.commandQueue = c.commandQueue ∧
      (d.writer = c.writer ∨ d.writer = .idle) := by
  cases a with
  | writerOpen byte => cases halone
  | writerFlush => cases halone
  | put => cases halone
  | writerClose =>
    simp only [CommandPipe.step, Option.ite_none_right_eq_some, Option.some.injEq] at h
    rw [← h.2]
    exact ⟨rfl, rfl, .inr rfl⟩
  | firstRead =>
    simp only [CommandPipe.step, Option.ite_none_right_eq_some] at h
    obtain ⟨_, h⟩ := h
    split at h <;> cases h <;> exact ⟨rfl, rfl, .inl rfl⟩
  | secondRead =>
    simp only [CommandPipe.step, Option.ite_none_right_eq_some] at h
    obtain ⟨_, h⟩ := h
    split at h <;> cases h <;> exact ⟨rfl, rfl, .inl rfl⟩
  | _ =>
    simp only [CommandPipe.step, Option.ite_none_right_eq_some, Option.some.injEq] at h
    rw [← h.2]
    exact ⟨rfl, rfl, .inl rfl⟩

/-- A step that is not permitted drops unread bytes, and does nothing else. -/
theorem drop_of_not_keeps {a : CommandPipe.Action} (hloses : ¬ CommandPipe.Keeps c a)
    (h : CommandPipe.step c a = some d) : OrderedChannel.Drop c.channel d.channel := by
  have hdrop : ∀ d : CommandPipe.Config, d.sent = c.sent → d.commandQueue = c.commandQueue →
      d.held = c.held → d.pipe.data.Sublist c.pipe.data →
      OrderedChannel.Drop c.channel d.channel := by
    intro d hsent hqueue hheld hdata
    refine ⟨congrArg (List.map byteText) hsent, ?_, ?_⟩
    · simp only [CommandPipe.Config.channel, hqueue]
    · simp only [CommandPipe.Config.channel, hheld]
      exact (List.Sublist.refl _).append (hdata.map byteText)
  cases a with
  | writerFlush =>
    simp only [CommandPipe.step] at h
    split at h
    · next hwriter => exact absurd (by simp [CommandPipe.Keeps, hwriter]) hloses
    · next byte hwriter =>
      split at h
      · next pipe hpipe =>
        have hreaders := (NamedPipe.Fifo.write_eq_some hpipe).1
        exact absurd (by simp [CommandPipe.Keeps, hwriter, hreaders]) hloses
      · next hpipe =>
        have hreaders := NamedPipe.Fifo.write_eq_none.mp hpipe
        have hcloses : ¬ c.pipe.CloseKeeps (c.pipe.readers + (c.pipe.writers - 1)) := by
          simpa [CommandPipe.Keeps, hwriter, hreaders] using hloses
        cases h
        refine hdrop _ rfl rfl rfl ?_
        rw [(NamedPipe.Fifo.closeWrite_loses _ hcloses).2]
        exact List.nil_sublist _
    · cases h
  | writerClose =>
    simp only [CommandPipe.step, Option.ite_none_right_eq_some, Option.some.injEq] at h
    rw [← h.2]
    refine hdrop _ rfl rfl rfl ?_
    rw [(NamedPipe.Fifo.closeWrite_loses _ hloses).2]
    exact List.nil_sublist _
  | firstRead =>
    simp only [CommandPipe.step, Option.ite_none_right_eq_some] at h
    obtain ⟨hopened, h⟩ := h
    split at h
    · next pipe hread =>
      obtain ⟨_, _, hpipe⟩ := NamedPipe.Fifo.read_bytes hread
      cases h
      refine hdrop _ rfl rfl (by simp [CommandPipe.Config.held, hopened]) ?_
      rw [hpipe, NamedPipe.Fifo.consume_data]
      exact List.drop_sublist _ _
    · next pipe hread => exact absurd (NamedPipe.Fifo.read_eof hread).1 hloses
    · next pipe hread => exact absurd (NamedPipe.Fifo.read_again hread).1 hloses
  | readerClose =>
    simp only [CommandPipe.step, Option.ite_none_right_eq_some, Option.some.injEq] at h
    rw [← h.2]
    refine hdrop _ rfl rfl (by simp [CommandPipe.Config.held, h.1]) ?_
    rw [(NamedPipe.Fifo.closeRead_loses _ hloses).2]
    exact List.nil_sublist _
  | _ => exact absurd trivial hloses

theorem faithful_step (c : CommandPipe.Config) (a : CommandPipe.Action) (d : CommandPipe.Config)
    (hc : c.channel.Faithful) (h : CommandPipe.step c a = some d) : d.channel.Faithful := by
  cases CommandPipe.step_moves_or_loses c a d h with
  | inl hmove => exact hmove.2.faithful hc
  | inr hloss => exact (drop_of_not_keeps hloss.1 h).faithful hc

end Pipe

/-- The attempts of `process_commands` and what waits on its queue make up what
arrived, whether or not an action has raised. -/
def Accounted (c : CommandProcessing.Config) : Prop :=
  c.attempted ++ c.commandQueue.filterMap action? = c.arrived.filterMap action?

theorem accounted_step (c : CommandProcessing.Config) (e : CommandProcessing.Event)
    (d : CommandProcessing.Config) (hc : Accounted c) (h : CommandProcessing.step c e = some d) :
    Accounted d := by
  unfold Accounted at hc ⊢
  cases e with
  | arrive command =>
    simp only [CommandProcessing.step, Option.ite_none_right_eq_some, Option.some.injEq] at h
    rw [← h.2, List.filterMap_append, List.filterMap_append, ← hc, List.append_assoc]
  | get =>
    obtain ⟨command, rest, hqueue, _, hd⟩ := CommandProcessing.get_cases h
    rw [hqueue, List.filterMap_cons] at hc
    rw [hd, ← hc, List.append_assoc]
    cases action? command <;> rfl
  | finish result =>
    simp only [CommandProcessing.step, Option.ite_none_right_eq_some, Option.some.injEq] at h
    rw [← h.2]
    cases result <;> exact hc
  | mainEnds =>
    simp only [CommandProcessing.step, Option.ite_none_right_eq_some, Option.some.injEq] at h
    rw [← h.2]
    exact hc

/-- The parts agree on what passes between them: the poller's sessions are what
was written, and what `read_pipe` put on the queue is what arrived there. -/
structure Joined (s : System) : Prop where
  bytes : s.pipe.sent = s.delivery.bytes
  session : ∀ byte, s.pipe.writer = .opened byte → carried s.delivery.pc = some byte
  queue : s.drone.arrived = s.pipe.commandQueue

theorem away_frame {writer : CommandPipe.WriterPc} {a : CommandDelivery.Action}
    {c d : CommandDelivery.Config} (haway : away writer a = true)
    (h : CommandDelivery.step onError c a = some d) :
    d.bytes = c.bytes ∧ (d.pc = c.pc ∨ writer = .idle) := by
  have hsessions : d.sessions = c.sessions := by
    cases DeliveryGuarantees.step_writes h with
    | inl hsame => exact hsame
    | inr hwrite =>
      rw [hwrite.1] at haway
      cases haway
  refine ⟨congrArg (List.filterMap Session.byte) hsessions, ?_⟩
  cases CommandDelivery.moves_of_step h with
  | post => exact .inl rfl
  | writeFailsafe => cases haway
  | writeRow => cases haway
  | writeFails => cases haway
  | _ => exact .inr (of_decide_eq_true haway)

theorem write_bytes {byte : Option CommandByte} {c d : CommandDelivery.Config}
    (hcarried : carried c.pc = some byte)
    (h : CommandDelivery.step onError c .write = some d) : d.bytes = c.bytes ++ byte.toList := by
  cases CommandDelivery.moves_of_step h with
  | @writeFailsafe wrote hpc =>
    rw [hpc, carried, Option.some.injEq] at hcarried
    rw [← hcarried, CommandDelivery.Config.bytes, List.filterMap_append]
    cases wrote <;> rfl
  | @writeRow wrote id hpc =>
    rw [hpc, carried, Option.some.injEq] at hcarried
    rw [← hcarried, CommandDelivery.Config.bytes, List.filterMap_append]
    cases wrote <;> rfl

theorem joined_step (s : System) (a : Action) (t : System) (hs : Joined s)
    (h : step onError s a = some t) : Joined t := by
  cases moves_of_step h with
  | delivery haway hdelivery =>
    obtain ⟨hbytes, hpc⟩ := away_frame haway hdelivery
    refine ⟨hs.bytes.trans hbytes.symm, fun byte hopened => ?_, hs.queue⟩
    cases hpc with
    | inl hsame => exact (congrArg carried hsame).trans (hs.session byte hopened)
    | inr hidle => exact absurd (hidle.symm.trans hopened) CommandPipe.WriterPc.noConfusion
  | @openPipe byte pipe hcarried hpipe =>
    simp only [CommandPipe.step, Option.ite_none_right_eq_some, Option.some.injEq] at hpipe
    rw [← hpipe.2]
    refine ⟨hs.bytes, fun other hopened => ?_, hs.queue⟩
    rw [← CommandPipe.WriterPc.opened.inj hopened]
    exact hcarried
  | write hpipe hflushed hdelivery =>
    obtain ⟨byte, hopened, hqueue, hsent⟩ := flush_writes hpipe
    refine ⟨?_, fun other hother => ?_, hs.queue.trans hqueue.symm⟩
    · cases hsent with
      | inl hsent => rw [hsent.2, write_bytes (hs.session byte hopened) hdelivery, hs.bytes]
      | inr hsent => exact absurd (hflushed.symm.trans hsent.1) CommandPipe.WriterPc.noConfusion
    · exact absurd (hflushed.symm.trans hother) CommandPipe.WriterPc.noConfusion
  | writeFails hpipe hended hdelivery =>
    obtain ⟨byte, hopened, hqueue, hsent⟩ := flush_writes hpipe
    refine ⟨?_, fun other hother => ?_, hs.queue.trans hqueue.symm⟩
    · cases hsent with
      | inl hsent => exact absurd (hended.symm.trans hsent.1) CommandPipe.WriterPc.noConfusion
      | inr hsent =>
        cases DeliveryGuarantees.step_writes hdelivery with
        | inl hsame =>
          rw [hsent.2, hs.bytes]
          exact congrArg (List.filterMap Session.byte) hsame.symm
        | inr hwrite => exact absurd hwrite.1 CommandDelivery.Action.noConfusion
    · exact absurd (hended.symm.trans hother) CommandPipe.WriterPc.noConfusion
  | pipe halone hpipe =>
    obtain ⟨hsent, hqueue, hwriter⟩ := alone_frame halone hpipe
    refine ⟨hsent.trans hs.bytes, fun byte hopened => ?_, hs.queue.trans hqueue.symm⟩
    cases hwriter with
    | inl hsame => exact hs.session byte (hsame.symm.trans hopened)
    | inr hidle => exact absurd (hidle.symm.trans hopened) CommandPipe.WriterPc.noConfusion
  | put hholding hpipe hdrone =>
    simp only [CommandPipe.step, hholding, Option.some.injEq] at hpipe
    simp only [CommandProcessing.step, Option.ite_none_right_eq_some, Option.some.injEq] at hdrone
    rw [← hpipe, ← hdrone.2]
    exact ⟨hs.bytes, hs.session, congrArg (· ++ _) hs.queue⟩
  | @drone e drone hown _ hdrone =>
    have harrived : drone.arrived = s.drone.arrived := by
      cases e with
      | arrive command => cases hown
      | get =>
        obtain ⟨_, _, _, _, hd⟩ := CommandProcessing.get_cases hdrone
        rw [hd]
      | finish result =>
        simp only [CommandProcessing.step, Option.ite_none_right_eq_some, Option.some.injEq] at hdrone
        rw [← hdrone.2]
        cases result <;> rfl
      | mainEnds =>
        simp only [CommandProcessing.step, Option.ite_none_right_eq_some, Option.some.injEq] at hdrone
        rw [← hdrone.2]
    exact ⟨hs.bytes, hs.session, harrived.trans hs.queue⟩

end Cherum.CommandSystem
