import Cherum.ActionRuns
import Cherum.LineFraming
import Cherum.NamedPipe
import Cherum.PythonJson

/-! The telemetry pipe between `pub_telemetry` of controller.py and telemetry.py,
at the steps of their system calls. The writer opens without waiting, which
fails unless a reader has opened or is opening, writes up to 100 messages and
closes. The reader waits for a writer in `open`, makes 100 calls of
`readline(2048)`, empty reads at the end of the file included, and closes; its
text layer fetches up to 8192 characters at a time and drops what is left over
at the close. All characters are ASCII, so characters and bytes agree. -/

namespace Cherum.TelemetryPipe
open ActionRuns LineFraming NamedPipe PythonJson

structure Message where
  text : List Char
  printable : AllPrintable text
  deriving DecidableEq

def Message.ofJson (texts : Texts) (value : Json) : Message :=
  ⟨dumps texts value, dumps_printable texts value⟩

inductive WriterPc
  | idle
  /-- At the head of the loop, with its counter. -/
  | opened (i : ℕ)
  /-- The text is written, its newline is not. -/
  | midway (i : ℕ) (message : Message)
  deriving DecidableEq

inductive ReaderPc
  | closed
  /-- Waiting in `open` for a writer. -/
  | opening
  | reading (i : ℕ)
  deriving DecidableEq

structure Config where
  pipe : Fifo Char
  writer : WriterPc
  reader : ReaderPc
  /-- What the open text reader has fetched and not returned. -/
  buffer : List Char
  jsonQueue : List Message
  /-- The messages written with their newline. -/
  written : List Message
  /-- The lines handed to `send_msg`. -/
  handed : List (List Char)

inductive Action
  | enqueue (message : Message)
  | writerOpen
  | writeText
  | writeNewline
  | writerClose
  | readerOpen
  | fetch
  | takeLine
  | readerClose

def initial : Config := ⟨Fifo.fresh, .idle, .closed, [], [], [], []⟩

def send (line : List Char) (handed : List (List Char)) : List (List Char) :=
  if line = [] then handed else handed ++ [line]

/-- Within a session the writer never awaits, so the queue grows between
sessions only. -/
def step (c : Config) : Action → Option Config
  | .enqueue message =>
    if c.writer = .idle then some { c with jsonQueue := c.jsonQueue ++ [message] } else none
  | .writerOpen =>
    if c.writer = .idle ∧ c.jsonQueue ≠ [] ∧ c.pipe.readers ≠ 0 then
      some { c with
        pipe := c.pipe.openWrite
        writer := .opened 0
        reader := if c.reader = .opening then .reading 0 else c.reader }
    else none
  | .writeText =>
    match c.writer, c.jsonQueue with
    | .opened i, message :: rest =>
      if i < 100 then
        (c.pipe.write message.text).map fun pipe =>
          { c with pipe, writer := .midway i message, jsonQueue := rest }
      else none
    | _, _ => none
  | .writeNewline =>
    match c.writer with
    | .midway i message =>
      (c.pipe.write ['\n']).map fun pipe =>
        { c with pipe, writer := .opened (i + 1), written := c.written ++ [message] }
    | _ => none
  | .writerClose =>
    match c.writer with
    | .opened i =>
      if c.jsonQueue = [] ∨ 100 ≤ i then
        some { c with pipe := c.pipe.closeWrite, writer := .idle }
      else none
    | _ => none
  | .readerOpen =>
    if c.reader = .closed then
      some { c with
        pipe := c.pipe.openRead
        reader := if c.pipe.writers = 0 then .opening else .reading 0 }
    else none
  | .fetch =>
    match c.reader, nextLine? '\n' 2048 c.buffer with
    | .reading i, none =>
      if i < 100 then
        match c.pipe.read 8192 with
        | (.bytes taken, pipe) => some { c with pipe, buffer := c.buffer ++ taken }
        | (.eof, pipe) =>
          some { c with
            pipe, buffer := [], reader := .reading (i + 1), handed := send c.buffer c.handed }
        | (.again, _) => none
      else none
    | _, _ => none
  | .takeLine =>
    match c.reader, nextLine? '\n' 2048 c.buffer with
    | .reading i, some (line, rest) =>
      if i < 100 then
        some { c with buffer := rest, reader := .reading (i + 1), handed := send line c.handed }
      else none
    | _, _ => none
  | .readerClose =>
    match c.reader with
    | .reading i =>
      if 100 ≤ i then
        some { c with pipe := c.pipe.closeRead, reader := .closed, buffer := [] }
      else none
    | _ => none

inductive Moves (c : Config) : Action → Config → Prop
  | enqueue {message : Message} (hidle : c.writer = .idle) :
      Moves c (.enqueue message) { c with jsonQueue := c.jsonQueue ++ [message] }
  | writerOpen (hidle : c.writer = .idle) (hqueue : c.jsonQueue ≠ [])
      (hreaders : c.pipe.readers ≠ 0) :
      Moves c .writerOpen { c with
        pipe := c.pipe.openWrite
        writer := .opened 0
        reader := if c.reader = .opening then .reading 0 else c.reader }
  | writeText {i : ℕ} {message : Message} {rest : List Message} {pipe : Fifo Char}
      (hwriter : c.writer = .opened i) (hqueue : c.jsonQueue = message :: rest) (hi : i < 100)
      (hpipe : c.pipe.write message.text = some pipe) :
      Moves c .writeText { c with pipe, writer := .midway i message, jsonQueue := rest }
  | writeNewline {i : ℕ} {message : Message} {pipe : Fifo Char}
      (hwriter : c.writer = .midway i message) (hpipe : c.pipe.write ['\n'] = some pipe) :
      Moves c .writeNewline
        { c with pipe, writer := .opened (i + 1), written := c.written ++ [message] }
  | writerClose {i : ℕ} (hwriter : c.writer = .opened i) (hend : c.jsonQueue = [] ∨ 100 ≤ i) :
      Moves c .writerClose { c with pipe := c.pipe.closeWrite, writer := .idle }
  | readerOpen (hclosed : c.reader = .closed) :
      Moves c .readerOpen { c with
        pipe := c.pipe.openRead
        reader := if c.pipe.writers = 0 then .opening else .reading 0 }
  | fetchBytes {i : ℕ} {taken : List Char} {pipe : Fifo Char} (hreader : c.reader = .reading i)
      (hline : nextLine? '\n' 2048 c.buffer = none) (hi : i < 100)
      (hread : c.pipe.read 8192 = (.bytes taken, pipe)) :
      Moves c .fetch { c with pipe, buffer := c.buffer ++ taken }
  | fetchEof {i : ℕ} {pipe : Fifo Char} (hreader : c.reader = .reading i)
      (hline : nextLine? '\n' 2048 c.buffer = none) (hi : i < 100)
      (hread : c.pipe.read 8192 = (.eof, pipe)) :
      Moves c .fetch { c with
        pipe, buffer := [], reader := .reading (i + 1), handed := send c.buffer c.handed }
  | takeLine {i : ℕ} {line rest : List Char} (hreader : c.reader = .reading i)
      (hline : nextLine? '\n' 2048 c.buffer = some (line, rest)) (hi : i < 100) :
      Moves c .takeLine
        { c with buffer := rest, reader := .reading (i + 1), handed := send line c.handed }
  | readerClose {i : ℕ} (hreader : c.reader = .reading i) (hi : 100 ≤ i) :
      Moves c .readerClose { c with pipe := c.pipe.closeRead, reader := .closed, buffer := [] }

theorem moves_of_step {c d : Config} {a : Action} (h : step c a = some d) : Moves c a d := by
  cases a with
  | enqueue message =>
    obtain ⟨hidle, hd⟩ := Option.ite_none_right_eq_some.mp h
    cases hd
    exact .enqueue hidle
  | writerOpen =>
    obtain ⟨⟨hidle, hqueue, hreaders⟩, hd⟩ := Option.ite_none_right_eq_some.mp h
    cases hd
    exact .writerOpen hidle hqueue hreaders
  | writeText =>
    simp only [step] at h
    split at h
    · next i message rest hwriter hqueue =>
      obtain ⟨hi, hsome⟩ := Option.ite_none_right_eq_some.mp h
      obtain ⟨pipe, hpipe, hd⟩ := Option.map_eq_some_iff.mp hsome
      exact hd ▸ .writeText hwriter hqueue hi hpipe
    · cases h
  | writeNewline =>
    simp only [step] at h
    split at h
    · next i message hwriter =>
      obtain ⟨pipe, hpipe, hd⟩ := Option.map_eq_some_iff.mp h
      exact hd ▸ .writeNewline hwriter hpipe
    · cases h
  | writerClose =>
    simp only [step] at h
    split at h
    · next i hwriter =>
      obtain ⟨hend, hd⟩ := Option.ite_none_right_eq_some.mp h
      cases hd
      exact .writerClose hwriter hend
    · cases h
  | readerOpen =>
    obtain ⟨hclosed, hd⟩ := Option.ite_none_right_eq_some.mp h
    cases hd
    exact .readerOpen hclosed
  | fetch =>
    simp only [step] at h
    split at h
    · next i hreader hline =>
      obtain ⟨hi, hsome⟩ := Option.ite_none_right_eq_some.mp h
      split at hsome
      · next taken pipe hread =>
        cases hsome
        exact .fetchBytes hreader hline hi hread
      · next pipe hread =>
        cases hsome
        exact .fetchEof hreader hline hi hread
      · cases hsome
    · cases h
  | takeLine =>
    simp only [step] at h
    split at h
    · next i line rest hreader hline =>
      obtain ⟨hi, hd⟩ := Option.ite_none_right_eq_some.mp h
      cases hd
      exact .takeLine hreader hline hi
    · cases h
  | readerClose =>
    simp only [step] at h
    split at h
    · next i hreader =>
      obtain ⟨hi, hd⟩ := Option.ite_none_right_eq_some.mp h
      cases hd
      exact .readerClose hreader hi
    · cases h

/-- The text of a message whose newline is still to come. -/
def Config.unfinished (c : Config) : List Char :=
  match c.writer with
  | .midway _ message => message.text
  | _ => []

/-- The lines handed on are the first messages written, and what is unread, in
the reader's buffer and in the pipe, is the rest. -/
def NoLoss (c : Config) : Prop :=
  c.handed = (c.written.take c.handed.length).map (fun message => frame '\n' message.text) ∧
  c.buffer ++ c.pipe.data =
    frames '\n' ((c.written.drop c.handed.length).map Message.text) ++ c.unfinished

instance (c : Config) : Decidable (NoLoss c) := inferInstanceAs (Decidable (_ ∧ _))

def Config.oldest (c : Config) : List Char :=
  match c.written.drop c.handed.length with
  | message :: _ => message.text
  | [] => c.unfinished

/-- A line is taken while the oldest message fits the limit, the reader closes
with an empty buffer, and no end that is the last one closes over unread data. -/
def Keeps (c : Config) : Action → Prop
  | .takeLine => c.oldest.length < 2048
  | .writerClose => c.pipe.CloseKeeps (c.pipe.readers + (c.pipe.writers - 1))
  | .readerClose => c.buffer = [] ∧ c.pipe.CloseKeeps (c.pipe.readers - 1 + c.pipe.writers)
  | _ => True

/-- A session of the writer holds the pipe open. -/
def WriterHolds (c : Config) : Prop := c.pipe.writers = 0 → c.writer = .idle

theorem newline_notMem (message : Message) : '\n' ∉ message.text :=
  fun h => absurd (message.printable _ h) (by decide)

theorem newline_notMem_unfinished (c : Config) : '\n' ∉ c.unfinished := by
  unfold Config.unfinished
  split
  · exact newline_notMem _
  · exact List.not_mem_nil

variable {c d : Config}

theorem handed_le_written (hc : NoLoss c) : c.handed.length ≤ c.written.length := by
  have hlength := congrArg List.length hc.1
  simp only [List.length_map, List.length_take] at hlength
  omega

theorem noLoss_of_eq (hc : NoLoss c) (hwritten : d.written = c.written)
    (hhanded : d.handed = c.handed) (hunfinished : d.unfinished = c.unfinished)
    (hdata : d.buffer ++ d.pipe.data = c.buffer ++ c.pipe.data) : NoLoss d := by
  unfold NoLoss
  rw [hwritten, hhanded, hunfinished, hdata]
  exact hc

theorem not_noLoss_of_shorter (hc : NoLoss c) (hwritten : d.written = c.written)
    (hhanded : d.handed = c.handed) (hunfinished : d.unfinished = c.unfinished)
    (hshorter : (d.buffer ++ d.pipe.data).length < (c.buffer ++ c.pipe.data).length) :
    ¬ NoLoss d := by
  intro hd
  have hdata := hd.2
  rw [hwritten, hhanded, hunfinished, ← hc.2] at hdata
  rw [hdata] at hshorter
  exact absurd hshorter (Nat.lt_irrefl _)

theorem noLoss_takeLine (hc : NoLoss c) {line rest : List Char}
    (hline : nextLine? '\n' 2048 c.buffer = some (line, rest))
    (hwritten : d.written = c.written) (hhanded : d.handed = c.handed ++ [line])
    (hunfinished : d.unfinished = c.unfinished)
    (hdata : d.buffer ++ d.pipe.data = rest ++ c.pipe.data) :
    NoLoss d ↔ c.oldest.length < 2048 := by
  have hfull : nextLine? '\n' 2048 (c.buffer ++ c.pipe.data) = some (line, rest ++ c.pipe.data) :=
    nextLine?_append hline
  rw [hc.2] at hfull
  have hcount : d.handed.length = c.handed.length + 1 := by
    rw [hhanded, List.length_append, List.length_singleton]
  cases hdrop : c.written.drop c.handed.length with
  | nil =>
    have holdest : c.oldest = c.unfinished := by simp only [Config.oldest, hdrop]
    rw [hdrop, List.map_nil, frames_nil, List.nil_append] at hfull
    rw [holdest]
    by_cases hfits : c.unfinished.length < 2048
    · rw [nextLine?_short (newline_notMem_unfinished c) hfits] at hfull
      cases hfull
    · refine iff_of_false (fun hd => ?_) hfits
      have hend := List.drop_eq_nil_iff.mp hdrop
      have hle := handed_le_written hd
      rw [hwritten, hcount] at hle
      omega
  | cons message later =>
    have holdest : c.oldest = message.text := by simp only [Config.oldest, hdrop]
    have hnext : c.written[c.handed.length]? = some message := by
      rw [← List.head?_drop, hdrop, List.head?_cons]
    have htake : c.written.take (c.handed.length + 1) =
        c.written.take c.handed.length ++ [message] := by
      rw [List.take_add_one, hnext, Option.toList_some]
    have hlater : c.written.drop (c.handed.length + 1) = later := by
      rw [← List.tail_drop, hdrop, List.tail_cons]
    rw [hdrop, List.map_cons, frames_cons, List.append_assoc] at hfull
    rw [holdest]
    by_cases hfits : message.text.length < 2048
    · rw [nextLine?_frame (newline_notMem message) hfits, Option.some.injEq, Prod.mk.injEq] at hfull
      refine iff_of_true ⟨?_, ?_⟩ hfits
      · rw [hcount, hwritten, htake, List.map_append, ← hc.1, hhanded, ← hfull.1]
        rfl
      · rw [hcount, hwritten, hlater, hunfinished, hdata, ← hfull.2]
    · have hlong := Nat.le_of_not_lt hfits
      rw [frame, List.append_assoc, nextLine?_long (newline_notMem message) hlong,
        Option.some.injEq, Prod.mk.injEq] at hfull
      refine iff_of_false (fun hd => ?_) hfits
      have hlines := hd.1
      rw [hcount, hwritten, htake, List.map_append, ← hc.1, hhanded, ← hfull.1,
        List.append_cancel_left_eq, List.map_singleton, List.singleton_inj] at hlines
      have hmem : '\n' ∈ message.text.take 2048 := by
        rw [hlines]
        exact List.mem_append_right _ List.mem_cons_self
      exact newline_notMem message (List.mem_of_mem_take hmem)

theorem buffer_empty_at_end (hc : NoLoss c) (hholds : WriterHolds c)
    (hwriters : c.pipe.writers = 0) (hdata : c.pipe.data = [])
    (hline : nextLine? '\n' 2048 c.buffer = none) : c.buffer = [] := by
  have hunfinished : c.unfinished = [] := by simp only [Config.unfinished, hholds hwriters]
  have htotal := hc.2
  rw [hdata, hunfinished, List.append_nil, List.append_nil] at htotal
  cases hdrop : c.written.drop c.handed.length with
  | nil => rw [htotal, hdrop, List.map_nil, frames_nil]
  | cons message later =>
    rw [htotal, hdrop, List.map_cons, frames_cons] at hline
    by_cases hfits : message.text.length < 2048
    · rw [nextLine?_frame (newline_notMem message) hfits] at hline
      cases hline
    · have hlong := Nat.le_of_not_lt hfits
      rw [frame, List.append_assoc, nextLine?_long (newline_notMem message) hlong] at hline
      cases hline

theorem WriterHolds.held (hc : WriterHolds c) (hbusy : c.writer ≠ .idle) {text : List Char}
    {pipe : Fifo Char} (hpipe : c.pipe.write text = some pipe) : pipe.writers ≠ 0 := by
  obtain ⟨_, _, _, hwriters⟩ := Fifo.write_eq_some hpipe
  intro hzero
  exact hbusy (hc (hwriters.symm.trans hzero))

theorem holds_step (c : Config) (a : Action) (d : Config) (hc : WriterHolds c)
    (h : step c a = some d) : WriterHolds d := by
  cases moves_of_step h with
  | writerOpen => exact fun hzero => absurd hzero (Nat.succ_ne_zero _)
  | writeText hwriter _ _ hpipe =>
    have hbusy : c.writer ≠ .idle := by simp [hwriter]
    exact fun hzero => absurd hzero (hc.held hbusy hpipe)
  | writeNewline hwriter hpipe =>
    have hbusy : c.writer ≠ .idle := by simp [hwriter]
    exact fun hzero => absurd hzero (hc.held hbusy hpipe)
  | writerClose => exact fun _ => rfl
  | fetchBytes _ _ _ hread =>
    obtain ⟨_, _, hpipe⟩ := Fifo.read_bytes hread
    rw [hpipe]
    exact hc
  | fetchEof _ _ _ hread =>
    obtain ⟨_, _, hpipe⟩ := Fifo.read_eof hread
    rw [hpipe]
    exact hc
  | _ => exact hc

theorem unfinished_opened {i : ℕ} (hwriter : c.writer = .opened i) : c.unfinished = [] := by
  simp only [Config.unfinished, hwriter]

theorem noLoss_writerClose (hc : NoLoss c) {i : ℕ} (hwriter : c.writer = .opened i) :
    NoLoss { c with pipe := c.pipe.closeWrite, writer := .idle } ↔ Keeps c .writerClose := by
  have hunfinished := unfinished_opened hwriter
  by_cases hkeeps : c.pipe.CloseKeeps (c.pipe.readers + (c.pipe.writers - 1))
  · refine iff_of_true (noLoss_of_eq hc rfl rfl ?_ ?_) hkeeps
    · rw [hunfinished]
      rfl
    · simp only [Fifo.closeWrite_data _ hkeeps]
  · obtain ⟨hdata, hempty⟩ := Fifo.closeWrite_loses _ hkeeps
    refine iff_of_false (not_noLoss_of_shorter hc rfl rfl ?_ ?_) hkeeps
    · rw [hunfinished]
      rfl
    · have hpos := List.length_pos_iff.mpr hdata
      simp only [hempty, List.length_append, List.length_nil]
      omega

theorem noLoss_readerClose (hc : NoLoss c) :
    NoLoss { c with pipe := c.pipe.closeRead, reader := .closed, buffer := [] } ↔
      Keeps c .readerClose := by
  by_cases hkeeps : c.buffer = [] ∧ c.pipe.CloseKeeps (c.pipe.readers - 1 + c.pipe.writers)
  · refine iff_of_true (noLoss_of_eq hc rfl rfl rfl ?_) hkeeps
    simp only [hkeeps.1, Fifo.closeRead_data _ hkeeps.2]
  · refine iff_of_false (not_noLoss_of_shorter hc rfl rfl rfl ?_) hkeeps
    simp only [List.nil_append, List.length_append]
    by_cases hpipe : c.pipe.CloseKeeps (c.pipe.readers - 1 + c.pipe.writers)
    · have hbuffer : c.buffer ≠ [] := fun hbuffer => hkeeps ⟨hbuffer, hpipe⟩
      have hpos := List.length_pos_iff.mpr hbuffer
      rw [Fifo.closeRead_data _ hpipe]
      omega
    · obtain ⟨hdata, hempty⟩ := Fifo.closeRead_loses _ hpipe
      have hpos := List.length_pos_iff.mpr hdata
      rw [hempty, List.length_nil]
      omega

theorem noLoss_step (c : Config) (a : Action) (d : Config) (hholds : WriterHolds c)
    (hc : NoLoss c) (h : step c a = some d) : NoLoss d ↔ Keeps c a := by
  cases moves_of_step h with
  | enqueue => exact iff_of_true (noLoss_of_eq hc rfl rfl rfl rfl) trivial
  | writerOpen hidle =>
    have hunfinished : c.unfinished = [] := by simp only [Config.unfinished, hidle]
    refine iff_of_true (noLoss_of_eq hc rfl rfl ?_ ?_) trivial
    · rw [hunfinished]
      rfl
    · simp only [Fifo.openWrite_data]
  | writeText hwriter _ _ hpipe =>
    obtain ⟨_, hdata, _, _⟩ := Fifo.write_eq_some hpipe
    have htotal := hc.2
    rw [unfinished_opened hwriter, List.append_nil] at htotal
    refine iff_of_true ⟨hc.1, ?_⟩ trivial
    simp only [hdata, ← List.append_assoc, htotal]
    rfl
  | @writeNewline i message pipe hwriter hpipe =>
    obtain ⟨_, hdata, _, _⟩ := Fifo.write_eq_some hpipe
    have hunfinished : c.unfinished = message.text := by simp only [Config.unfinished, hwriter]
    have hle := handed_le_written hc
    have htotal := hc.2
    rw [hunfinished] at htotal
    refine iff_of_true ⟨?_, ?_⟩ trivial
    · simp only [List.take_append_of_le_length hle]
      exact hc.1
    · simp only [hdata, ← List.append_assoc, htotal, List.drop_append_of_le_length hle,
        List.map_append, List.map_singleton, frames_append, frames_cons, frames_nil, frame,
        Config.unfinished, List.append_nil]
  | writerClose hwriter => exact noLoss_writerClose hc hwriter
  | readerOpen =>
    refine iff_of_true (noLoss_of_eq hc rfl rfl rfl ?_) trivial
    simp only [Fifo.openRead_data]
  | fetchBytes _ _ _ hread =>
    obtain ⟨_, htaken, hpipe⟩ := Fifo.read_bytes hread
    refine iff_of_true (noLoss_of_eq hc rfl rfl rfl ?_) trivial
    simp only [htaken, hpipe, Fifo.consume_data, List.append_assoc, List.take_append_drop]
  | fetchEof _ hline _ hread =>
    obtain ⟨hdata, hwriters, hpipe⟩ := Fifo.read_eof hread
    have hbuffer := buffer_empty_at_end hc hholds hwriters hdata hline
    refine iff_of_true (noLoss_of_eq hc rfl ?_ rfl ?_) trivial
    · simp only [send, hbuffer, if_true]
    · simp only [hbuffer, hpipe]
  | @takeLine i line rest _ hline _ =>
    have hsend : send line c.handed = c.handed ++ [line] := by
      simp only [send, nextLine?_ne_nil hline, if_false]
    exact noLoss_takeLine hc hline rfl hsend rfl rfl
  | readerClose => exact noLoss_readerClose hc

/-- Along every interleaving of the sessions, no line is lost or torn exactly
when each step keeps what is unread. -/
theorem lines_kept_iff (acts : List Action) :
    EveryState step NoLoss initial acts ↔ EveryStep step Keeps initial acts := by
  have hinitial : NoLoss initial := ⟨rfl, rfl⟩
  have hholds : WriterHolds initial := fun _ => rfl
  exact everyState_iff_everyStep holds_step noLoss_step hholds hinitial acts

def armedMessage (armed : Bool) : Message :=
  .ofJson noTexts (.obj [("type", .str "armed"), ("armed", .bool armed)])

def writeMessage : List Action := [.writeText, .writeNewline]

/-- One message, 98 reads at the end of the file, and then two messages of which
the reader fetches both and returns one before its 100th call is used up. -/
def readAhead : List Action :=
  [.enqueue (armedMessage true), .readerOpen, .writerOpen] ++ writeMessage ++
    [.writerClose, .fetch, .takeLine] ++ List.replicate 98 .fetch ++
    [.enqueue (armedMessage false), .enqueue (armedMessage true), .writerOpen] ++
    writeMessage ++ writeMessage ++ [.writerClose, .fetch, .takeLine, .readerClose]

/-- The third message is neither handed on nor left anywhere. -/
theorem message_lost_at_close :
    ∃ c, run step initial readAhead = some c ∧
      c.written = [armedMessage true, armedMessage false, armedMessage true] ∧
      c.handed = [frame '\n' (armedMessage true).text, frame '\n' (armedMessage false).text] ∧
      c.buffer = [] ∧ c.pipe.data = [] ∧ ¬ NoLoss c := by
  have hrun : (run step initial readAhead).map (fun c => decide (
      c.written = [armedMessage true, armedMessage false, armedMessage true] ∧
      c.handed = [frame '\n' (armedMessage true).text, frame '\n' (armedMessage false).text] ∧
      c.buffer = [] ∧ c.pipe.data = [] ∧ ¬ NoLoss c)) = some true := by
    decide +kernel
  obtain ⟨c, hc, h⟩ := Option.map_eq_some_iff.mp hrun
  exact ⟨c, hc, of_decide_eq_true h⟩

end Cherum.TelemetryPipe
