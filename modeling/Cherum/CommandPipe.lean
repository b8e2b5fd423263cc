import Cherum.ActionRuns
import Cherum.CommandPoller
import Cherum.NamedPipe
import Cherum.OrderedChannel

/-! The command pipe between poller.py and `read_pipe` of controller.py, at the
steps of their system calls. The poller opens the pipe, which waits for a
reader, writes one byte or none when the session is flushed, and closes it; a
broken pipe raises and ends it. `read_pipe` opens without waiting and reads one
byte: only the branch in which that read raises `BlockingIOError` goes on to a
second, blocking read and puts what it returns on the queue. -/

namespace Cherum.CommandPipe
open ActionRuns CommandPoller NamedPipe OrderedChannel

inductive WriterPc
  | idle
  | opened (byte : Option CommandByte)
  | flushed
  | ended
  deriving DecidableEq, Repr

inductive ReaderPc
  | sleeping
  | opened
  /-- The first read raised `BlockingIOError`; `O_NONBLOCK` is cleared. -/
  | blocking
  | holding (data : List CommandByte)
  | closing
  deriving DecidableEq, Repr

structure Config where
  pipe : Fifo CommandByte
  writer : WriterPc
  reader : ReaderPc
  commandQueue : List String
  /-- The bytes the poller wrote so far. -/
  sent : List CommandByte

inductive Action
  | writerOpen (byte : Option CommandByte)
  | writerFlush
  | writerClose
  | readerOpen
  | firstRead
  | secondRead
  | put
  | readerClose
  deriving DecidableEq, Repr

def initial : Config := ⟨Fifo.fresh, .idle, .sleeping, [], []⟩

def byteText : CommandByte → String
  | .l => "l"
  | .h => "h"
  | .r => "r"

/-- `data.decode().strip()` for what one read returned. -/
def decodeStrip (data : List CommandByte) : String := String.join (data.map byteText)

def step (c : Config) : Action → Option Config
  | .writerOpen byte =>
    if c.writer = .idle ∧ c.pipe.readers ≠ 0 then
      some { c with pipe := c.pipe.openWrite, writer := .opened byte }
    else none
  | .writerFlush =>
    match c.writer with
    | .opened none => some { c with writer := .flushed }
    | .opened (some byte) =>
      match c.pipe.write [byte] with
      | some pipe => some { c with pipe, writer := .flushed, sent := c.sent ++ [byte] }
      | none => some { c with pipe := c.pipe.closeWrite, writer := .ended }
    | _ => none
  | .writerClose =>
    if c.writer = .flushed then some { c with pipe := c.pipe.closeWrite, writer := .idle }
    else none
  | .readerOpen =>
    if c.reader = .sleeping then some { c with pipe := c.pipe.openRead, reader := .opened }
    else none
  | .firstRead =>
    if c.reader = .opened then
      match c.pipe.read 1 with
      | (.bytes _, pipe) => some { c with pipe, reader := .closing }
      | (.eof, pipe) => some { c with pipe, reader := .closing }
      | (.again, pipe) => some { c with pipe, reader := .blocking }
    else none
  | .secondRead =>
    if c.reader = .blocking then
      match c.pipe.read 1 with
      | (.bytes data, pipe) => some { c with pipe, reader := .holding data }
      | (.eof, pipe) => some { c with pipe, reader := .holding [] }
      | (.again, _) => none
    else none
  | .put =>
    match c.reader with
    | .holding data =>
      some { c with reader := .closing, commandQueue := c.commandQueue ++ [decodeStrip data] }
    | _ => none
  | .readerClose =>
    if c.reader = .closing then some { c with pipe := c.pipe.closeRead, reader := .sleeping }
    else none

def Config.held (c : Config) : List String :=
  match c.reader with
  | .holding data => [decodeStrip data].filter (· ≠ "")
  | _ => []

/-- The pipe as a channel of texts; an empty string on the queue is no content. -/
def Config.channel (c : Config) : Channel String where
  sent := c.sent.map byteText
  pending := c.held ++ c.pipe.data.map byteText
  delivered := c.commandQueue.filter (· ≠ "")

/-- No first read finds a byte, and no end that is the last one is closed while
a byte is unread; a broken pipe closes the poller's end as well. -/
def Keeps (c : Config) : Action → Prop
  | .firstRead => c.pipe.data = []
  | .writerFlush =>
    match c.writer with
    | .opened (some _) => c.pipe.readers = 0 → c.pipe.CloseKeeps (c.pipe.writers - 1)
    | _ => True
  | .writerClose => c.pipe.CloseKeeps (c.pipe.readers + (c.pipe.writers - 1))
  | .readerClose => c.pipe.CloseKeeps (c.pipe.readers - 1 + c.pipe.writers)
  | _ => True

theorem byteText_ne_empty (byte : CommandByte) : byteText byte ≠ "" := by
  cases byte <;> decide

theorem decodeStrip_take_one {data : List CommandByte} (h : data ≠ []) :
    [decodeStrip (data.take 1)].filter (· ≠ "") ++ (data.drop 1).map byteText =
      data.map byteText := by
  obtain ⟨byte, rest, hdata⟩ := List.exists_cons_of_ne_nil h
  have hjoin : decodeStrip [byte] = byteText byte := by simp [decodeStrip]
  simp [hdata, hjoin, byteText_ne_empty]

theorem decodeStrip_nil : decodeStrip [] = "" := rfl

variable {c d : Config}

theorem stay_of_eq (hsent : d.sent = c.sent) (hqueue : d.commandQueue = c.commandQueue)
    (hheld : d.held = c.held) (hdata : d.pipe.data = c.pipe.data) :
    Move c.channel d.channel := by
  have hchannel : d.channel = c.channel := by
    simp only [Config.channel, hsent, hqueue, hheld, hdata]
  rw [hchannel]
  exact .stay _

theorem loss_of_data (hsent : d.sent = c.sent) (hqueue : d.commandQueue = c.commandQueue)
    (hheld : d.held = c.held) (hdata : d.pipe.data.length < c.pipe.data.length) :
    Loss c.channel d.channel := by
  refine ⟨by simp only [Config.channel, hsent], ?_⟩
  simp only [Config.channel, hqueue, hheld, List.length_append, List.length_map]
  omega

theorem close_moves_or_loses {left : ℕ} (hsent : d.sent = c.sent)
    (hqueue : d.commandQueue = c.commandQueue) (hheld : d.held = c.held)
    (hkeeps : c.pipe.CloseKeeps left → d.pipe.data = c.pipe.data)
    (hloses : ¬ c.pipe.CloseKeeps left → c.pipe.data ≠ [] ∧ d.pipe.data = []) :
    c.pipe.CloseKeeps left ∧ Move c.channel d.channel ∨
      ¬ c.pipe.CloseKeeps left ∧ Loss c.channel d.channel := by
  by_cases h : c.pipe.CloseKeeps left
  · exact .inl ⟨h, stay_of_eq hsent hqueue hheld (hkeeps h)⟩
  · obtain ⟨hdata, hempty⟩ := hloses h
    refine .inr ⟨h, loss_of_data hsent hqueue hheld ?_⟩
    rw [hempty]
    exact List.length_pos_iff.mpr hdata

theorem step_moves_or_loses (c : Config) (a : Action) (d : Config) (h : step c a = some d) :
    Keeps c a ∧ Move c.channel d.channel ∨ ¬ Keeps c a ∧ Loss c.channel d.channel := by
  cases a with
  | writerOpen byte =>
    simp only [step, Option.ite_none_right_eq_some, Option.some.injEq] at h
    rw [← h.2]
    exact .inl ⟨trivial, stay_of_eq rfl rfl rfl (by simp)⟩
  | writerFlush =>
    simp only [step] at h
    split at h
    · next hw =>
      cases h
      exact .inl ⟨by simp [Keeps, hw], stay_of_eq rfl rfl rfl rfl⟩
    · next byte hw =>
      split at h
      · next pipe hpipe =>
        obtain ⟨hr, hdata, _⟩ := Fifo.write_eq_some hpipe
        cases h
        refine .inl ⟨by simp [Keeps, hw, hr], ?_⟩
        have hsend := Move.send c.channel [byteText byte]
        simpa [Config.channel, Config.held, hdata] using hsend
      · next hpipe =>
        have hr := Fifo.write_eq_none.mp hpipe
        cases h
        have hkeeps : Keeps c .writerFlush ↔ c.pipe.CloseKeeps (c.pipe.writers - 1) := by
          simp [Keeps, hw, hr]
        have hleft : c.pipe.readers + (c.pipe.writers - 1) = c.pipe.writers - 1 := by omega
        rw [hkeeps, ← hleft]
        exact close_moves_or_loses rfl rfl rfl (Fifo.closeWrite_data _) (Fifo.closeWrite_loses _)
    · cases h
  | writerClose =>
    simp only [step, Option.ite_none_right_eq_some, Option.some.injEq] at h
    rw [← h.2]
    exact close_moves_or_loses rfl rfl rfl (Fifo.closeWrite_data _) (Fifo.closeWrite_loses _)
  | readerOpen =>
    simp only [step, Option.ite_none_right_eq_some, Option.some.injEq] at h
    rw [← h.2]
    exact .inl ⟨trivial, stay_of_eq rfl rfl (by simp [Config.held, h.1]) (by simp)⟩
  | firstRead =>
    simp only [step] at h
    split at h
    · next hopened =>
      split at h
      · next taken pipe hread =>
        obtain ⟨hdata, _, hpipe⟩ := Fifo.read_bytes hread
        cases h
        refine .inr ⟨hdata, loss_of_data rfl rfl (by simp [Config.held, hopened]) ?_⟩
        have hpos := List.length_pos_iff.mpr hdata
        simp only [hpipe, Fifo.consume_data, List.length_drop]
        omega
      · next pipe hread =>
        obtain ⟨hdata, _, hpipe⟩ := Fifo.read_eof hread
        cases h
        exact .inl ⟨hdata, stay_of_eq rfl rfl (by simp [Config.held, hopened]) (by rw [hpipe])⟩
      · next pipe hread =>
        obtain ⟨hdata, _, hpipe⟩ := Fifo.read_again hread
        cases h
        exact .inl ⟨hdata, stay_of_eq rfl rfl (by simp [Config.held, hopened]) (by rw [hpipe])⟩
    · cases h
  | secondRead =>
    simp only [step] at h
    split at h
    · next hblocking =>
      split at h
      · next taken pipe hread =>
        obtain ⟨hdata, htaken, hpipe⟩ := Fifo.read_bytes hread
        cases h
        have htext := decodeStrip_take_one hdata
        have hchannel : Config.channel { c with pipe, reader := .holding taken } = c.channel := by
          simp only [Config.channel, Config.held, hblocking, htaken, hpipe, Fifo.consume_data,
            htext, List.nil_append]
        rw [hchannel]
        exact .inl ⟨trivial, .stay _⟩
      · next pipe hread =>
        obtain ⟨_, _, hpipe⟩ := Fifo.read_eof hread
        cases h
        refine .inl ⟨trivial, stay_of_eq rfl rfl ?_ (by rw [hpipe])⟩
        simp [Config.held, hblocking, decodeStrip_nil]
      · cases h
    · cases h
  | put =>
    simp only [step] at h
    split at h
    · next data hholding =>
      cases h
      have hdeliver := Move.deliver (c.sent.map byteText) (c.commandQueue.filter (· ≠ ""))
        ([decodeStrip data].filter (· ≠ "")) (c.pipe.data.map byteText)
      refine .inl ⟨trivial, ?_⟩
      simpa only [Config.channel, Config.held, hholding, List.filter_append, List.nil_append]
        using hdeliver
    · cases h
  | readerClose =>
    simp only [step, Option.ite_none_right_eq_some, Option.some.injEq] at h
    rw [← h.2]
    exact close_moves_or_loses rfl rfl (by simp [Config.held, h.1]) (Fifo.closeRead_data _)
      (Fifo.closeRead_loses _)

/-- Along every interleaving, no byte is lost, duplicated or reordered exactly
when no first read finds a byte and no last end is closed over one. -/
theorem pipe_intact_iff (acts : List Action) :
    EveryState step (fun c => c.channel.Intact) initial acts ↔
      EveryStep step Keeps initial acts := by
  have hinitial : initial.channel.Intact := rfl
  refine everyState_iff_everyStep (I := fun _ => True)
    (P := fun c : Config => c.channel.Intact) ?_ ?_ trivial hinitial acts
  · exact fun _ _ _ _ _ => trivial
  · exact fun c a d _ hc h => intact_iff (step_moves_or_loses c a d h) hc

/-- The poller opens and writes land between the open and the first read of
`read_pipe`: the byte is read and dropped, with nothing left anywhere. -/
theorem land_dropped_by_first_read :
    ∃ c, run step initial [.readerOpen, .writerOpen (some .l), .writerFlush, .firstRead,
        .writerClose, .readerClose] = some c ∧
      c.sent = [.l] ∧ c.commandQueue = [] ∧ c.held = [] ∧ c.pipe.data = [] ∧
      ¬ c.channel.Intact := by
  exact ⟨_, rfl, rfl, rfl, rfl, rfl, by decide⟩

end Cherum.CommandPipe
