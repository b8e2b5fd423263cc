import Cherum.TelemetryPipe

/-! The loop of `pub_telemetry`, whatever its system calls return. It awaits
when the queue is empty and when a call fails with `ENXIO`; after any other
failure it prints and goes on at once. A message leaves the queue before its
text is written, and its newline is written by a call of its own. -/

namespace Cherum.TelemetryPublisher
open ActionRuns LineFraming PythonJson
open TelemetryPipe (Message)

inductive Errno
  | enxio
  | enoent
  | eagain
  | epipe
  | other (number : ℕ)
  deriving DecidableEq, Repr

/-- What the system calls of one pass of the outer loop do, if they are made:
the failure of `os.open` or of the numbered `os.write`, or none. -/
structure Attempt where
  opened : Option Errno
  writes : ℕ → Option Errno

structure Batch where
  jsonQueue : List Message
  /-- A write that returns has written all it was given, one that fails nothing. -/
  bytes : List Char
  failure : Option Errno

/-- The inner loop, with the number of messages it may still take and the number
of its next write. -/
def writeBatch (writes : ℕ → Option Errno) : ℕ → ℕ → List Message → Batch
  | 0, _, jsonQueue => ⟨jsonQueue, [], none⟩
  | _ + 1, _, [] => ⟨[], [], none⟩
  | rounds + 1, call, message :: rest =>
    match writes call with
    | some errno => ⟨rest, [], some errno⟩
    | none =>
      match writes (call + 1) with
      | some errno => ⟨rest, message.text, some errno⟩
      | none =>
        { writeBatch writes rounds (call + 2) rest with
          bytes := frame '\n' message.text ++ (writeBatch writes rounds (call + 2) rest).bytes }

structure Publisher where
  jsonQueue : List Message
  /-- Everything written to the pipe so far. -/
  bytes : List Char
  /-- Everything put on the queue so far. -/
  queued : List Message
  /-- The last pass ended in `asyncio.sleep`. -/
  asleep : Bool

def initial : Publisher := ⟨[], [], [], true⟩

def iterate (a : Attempt) (s : Publisher) : Publisher :=
  if s.jsonQueue = [] then { s with asleep := true }
  else
    match a.opened with
    | some errno => { s with asleep := errno = .enxio }
    | none =>
      { s with
        jsonQueue := (writeBatch a.writes 100 0 s.jsonQueue).jsonQueue
        bytes := s.bytes ++ (writeBatch a.writes 100 0 s.jsonQueue).bytes
        asleep := (writeBatch a.writes 100 0 s.jsonQueue).failure = some .enxio }

inductive Action
  /-- `queue_parser` puts a text on the queue, while the loop sleeps. -/
  | put (message : Message)
  | iterate (attempt : Attempt)

def step (s : Publisher) : Action → Option Publisher
  | .put message =>
    if s.asleep then
      some { s with jsonQueue := s.jsonQueue ++ [message], queued := s.queued ++ [message] }
    else none
  | .iterate attempt => some (iterate attempt s)

variable {writes : ℕ → Option Errno} {rounds call : ℕ} {queue : List Message}

def size (rounds : ℕ) (queue : List Message) : ℕ := min rounds queue.length

def FirstFailure (writes : ℕ → Option Errno) (call k : ℕ) (errno : Errno) : Prop :=
  writes (call + k) = some errno ∧ ∀ j < k, writes (call + j) = none

theorem writeBatch_returned (h : ∀ k < 2 * size rounds queue, writes (call + k) = none) :
    writeBatch writes rounds call queue =
      ⟨queue.drop (size rounds queue),
        frames '\n' ((queue.take (size rounds queue)).map Message.text), none⟩ := by
  induction rounds generalizing call queue with
  | zero => simp [writeBatch, size]
  | succ rounds ih =>
    cases queue with
    | nil => simp [writeBatch, size]
    | cons message rest =>
      have hsize : size (rounds + 1) (message :: rest) = size rounds rest + 1 := by
        simp [size]
      have htext : writes call = none := h 0 (by omega)
      have hnewline : writes (call + 1) = none := h 1 (by omega)
      have hrest : writeBatch writes rounds (call + 2) rest =
          ⟨rest.drop (size rounds rest),
            frames '\n' ((rest.take (size rounds rest)).map Message.text), none⟩ := by
        refine ih fun k hk => ?_
        rw [show call + 2 + k = call + (k + 2) by omega]
        exact h (k + 2) (by omega)
      simp only [writeBatch, htext, hnewline, hrest, hsize]
      rfl

theorem count_text (message : Message) : message.text.count '\n' = 0 :=
  List.count_eq_zero.mpr (TelemetryPipe.newline_notMem message)

theorem count_frames (messages : List Message) :
    (frames '\n' (messages.map Message.text)).count '\n' = messages.length := by
  induction messages with
  | nil => rfl
  | cons message messages ih =>
    rw [List.map_cons, frames_cons, List.count_append, ih, frame, List.count_append, count_text,
      List.length_cons]
    simp only [List.count_singleton_self]
    omega

/-- The messages written completely, and what else was written, when a write fails. -/
theorem writeBatch_failed {k : ℕ} {errno : Errno} (hk : k < 2 * size rounds queue)
    (h : FirstFailure writes call k errno) :
    (writeBatch writes rounds call queue).failure = some errno ∧
    (writeBatch writes rounds call queue).jsonQueue = queue.drop (k / 2 + 1) ∧
    (writeBatch writes rounds call queue).bytes.count '\n' = k / 2 := by
  obtain ⟨hfailed, hearlier⟩ := h
  induction rounds generalizing call queue k with
  | zero => simp [size] at hk
  | succ rounds ih =>
    cases queue with
    | nil => simp [size] at hk
    | cons message rest =>
      have hsize : size (rounds + 1) (message :: rest) = size rounds rest + 1 := by
        simp [size]
      match k with
      | 0 =>
        simp only [Nat.add_zero] at hfailed
        simp [writeBatch, hfailed]
      | 1 =>
        have htext : writes call = none := hearlier 0 (by omega)
        simp [writeBatch, htext, hfailed, count_text]
      | k + 2 =>
        have htext : writes call = none := hearlier 0 (by omega)
        have hnewline : writes (call + 1) = none := hearlier 1 (by omega)
        have hshift : ∀ j, call + 2 + j = call + (j + 2) := fun j => by omega
        have hfailed' : writes (call + 2 + k) = some errno := by
          rw [hshift]
          exact hfailed
        have hearlier' : ∀ j < k, writes (call + 2 + j) = none := fun j hj => by
          rw [hshift]
          exact hearlier (j + 2) (by omega)
        have hsmaller : k < 2 * size rounds rest := by omega
        obtain ⟨hfailure, hqueue, hcount⟩ := ih hsmaller hfailed' hearlier'
        have hhalf : (k + 2) / 2 = k / 2 + 1 := by omega
        simp only [writeBatch, htext, hnewline, hhalf, List.drop_succ_cons]
        refine ⟨hfailure, hqueue, ?_⟩
        rw [List.count_append, hcount, frame, List.count_append, count_text]
        simp only [List.count_singleton_self]
        omega

theorem exists_firstFailure {n : ℕ} (h : ¬ ∀ k < n, writes (call + k) = none) :
    ∃ k < n, ∃ errno, FirstFailure writes call k errno := by
  classical
  have hexists : ∃ k, k < n ∧ writes (call + k) ≠ none := by simpa using h
  obtain ⟨hlt, hfailed⟩ := Nat.find_spec hexists
  obtain ⟨errno, herrno⟩ := Option.ne_none_iff_exists'.mp hfailed
  refine ⟨Nat.find hexists, hlt, errno, herrno, fun j hj => ?_⟩
  by_contra hnone
  exact Nat.find_min hexists hj ⟨hj.trans hlt, hnone⟩

/-- The ways a pass of the outer loop can go. -/
inductive Passes (a : Attempt) (s : Publisher) : Publisher → Prop
  | empty (hempty : s.jsonQueue = []) : Passes a s { s with asleep := true }
  | refused {errno : Errno} (hqueue : s.jsonQueue ≠ []) (hopened : a.opened = some errno) :
      Passes a s { s with asleep := errno = .enxio }
  | written (hqueue : s.jsonQueue ≠ []) (hopened : a.opened = none)
      (hwrites : ∀ k < 2 * size 100 s.jsonQueue, a.writes (0 + k) = none) :
      Passes a s { s with
        jsonQueue := s.jsonQueue.drop (size 100 s.jsonQueue)
        bytes := s.bytes ++
          frames '\n' ((s.jsonQueue.take (size 100 s.jsonQueue)).map Message.text)
        asleep := false }
  | failed {k : ℕ} {errno : Errno} {t : Publisher} (hqueue : s.jsonQueue ≠ [])
      (hopened : a.opened = none) (hk : k < 2 * size 100 s.jsonQueue)
      (hfirst : FirstFailure a.writes 0 k errno)
      (hrest : t.jsonQueue = s.jsonQueue.drop (k / 2 + 1))
      (hcount : t.bytes.count '\n' = s.bytes.count '\n' + k / 2) (hqueued : t.queued = s.queued)
      (hasleep : t.asleep = decide (errno = .enxio)) : Passes a s t

theorem passes_iterate (a : Attempt) (s : Publisher) : Passes a s (iterate a s) := by
  by_cases hqueue : s.jsonQueue = []
  · rw [iterate, if_pos hqueue]
    exact .empty hqueue
  · rw [iterate, if_neg hqueue]
    cases hopened : a.opened with
    | some errno => exact .refused hqueue hopened
    | none =>
      by_cases hwrites : ∀ k < 2 * size 100 s.jsonQueue, a.writes (0 + k) = none
      · simp only [writeBatch_returned hwrites]
        exact .written hqueue hopened hwrites
      · obtain ⟨k, hk, errno, hfirst⟩ := exists_firstFailure hwrites
        obtain ⟨hfailure, hrest, hcount⟩ := writeBatch_failed hk hfirst
        refine .failed hqueue hopened hk hfirst hrest ?_ rfl ?_
        · rw [List.count_append, hcount]
        · simp [hfailure]

section Framing

/-- The bytes are the frames of messages that, with those still queued, are all
that were queued, in order. -/
def Framed (s : Publisher) : Prop :=
  ∃ sent : List Message, s.bytes = frames '\n' (sent.map Message.text) ∧
    sent ++ s.jsonQueue = s.queued

def WritesReturn (s : Publisher) : Action → Prop
  | .put _ => True
  | .iterate a =>
    a.opened = none → ∀ k < 2 * size 100 s.jsonQueue, a.writes k = none

variable {s : Publisher}

theorem Framed.count (h : Framed s) :
    s.bytes.count '\n' + s.jsonQueue.length = s.queued.length := by
  obtain ⟨sent, hbytes, hqueued⟩ := h
  rw [hbytes, count_frames, ← hqueued, List.length_append]

/-- A pass keeps the framing exactly when all its writes return: one that fails
leaves one message in neither place. -/
theorem framed_iterate_iff (a : Attempt) (hs : Framed s) :
    Framed (iterate a s) ↔ WritesReturn s (.iterate a) := by
  have hpass := passes_iterate a s
  generalize iterate a s = t at hpass ⊢
  obtain ⟨sent, hbytes, hqueued⟩ := hs
  cases hpass with
  | empty hempty =>
    refine iff_of_true ⟨sent, hbytes, hqueued⟩ fun _ k hk => ?_
    simp [hempty, size] at hk
  | refused hqueue hopened =>
    refine iff_of_true ⟨sent, hbytes, hqueued⟩ fun hnone => ?_
    rw [hopened] at hnone
    cases hnone
  | written hqueue hopened hwrites =>
    refine iff_of_true ⟨sent ++ s.jsonQueue.take (size 100 s.jsonQueue), ?_, ?_⟩ fun _ k hk => ?_
    · rw [hbytes, List.map_append, frames_append]
    · rw [List.append_assoc, List.take_append_drop, hqueued]
    · rw [← hwrites k hk, Nat.zero_add]
  | failed hqueue hopened hk hfirst hrest hcount hkept hasleep =>
    refine iff_of_false (fun ht => ?_) fun hreturn => ?_
    · have hbefore := Framed.count ⟨sent, hbytes, hqueued⟩
      have hafter := ht.count
      rw [hcount, hrest, hkept, List.length_drop] at hafter
      unfold size at hk
      omega
    · have hfailed := hfirst.1
      rw [Nat.zero_add, hreturn hopened _ hk] at hfailed
      cases hfailed

/-- In a run every pass leaves complete frames behind, and with them and the
queue all messages in order, exactly when no write that is made fails. -/
theorem framed_throughout_iff (actions : List Action) :
    EveryState step Framed initial actions ↔ EveryStep step WritesReturn initial actions := by
  refine everyState_iff_everyStep (I := fun _ => True) (fun _ _ _ _ _ => trivial) ?_ trivial
    ⟨[], rfl, rfl⟩ actions
  intro s a t _ hs h
  cases a with
  | put message =>
    obtain ⟨_, ht⟩ := Option.ite_none_right_eq_some.mp h
    rw [← Option.some.inj ht]
    obtain ⟨sent, hbytes, hqueued⟩ := hs
    refine iff_of_true ⟨sent, hbytes, ?_⟩ trivial
    rw [← hqueued, List.append_assoc]
  | iterate a =>
    rw [← Option.some.inj h]
    exact framed_iterate_iff a hs

def oneMessage : Message := ⟨['1'], by decide⟩

def twoMessage : Message := ⟨['2'], by decide⟩

/-- Open returns, and the numbered write fails. -/
def failsAt (call : ℕ) (errno : Errno) : Attempt :=
  ⟨none, fun k => if k = call then some errno else none⟩

/-- A full pipe at the first write of a text, and at the first write of a
newline: the one message is gone, the other glued to the next. -/
theorem message_lost_and_glued :
    (∃ s, run step initial [.put oneMessage, .iterate (failsAt 0 .eagain)] = some s ∧
      s.bytes = [] ∧ s.jsonQueue = [] ∧ s.queued = [oneMessage]) ∧
    (∃ s, run step initial [.put oneMessage, .put twoMessage, .iterate (failsAt 1 .eagain),
        .iterate (failsAt 2 .eagain)] = some s ∧
      s.bytes = ['1', '2', '\n'] ∧ s.jsonQueue = []) ∧
    ¬ EveryState step Framed initial [.put oneMessage, .iterate (failsAt 0 .eagain)] := by
  refine ⟨⟨_, rfl, rfl, rfl, rfl⟩, ⟨_, rfl, rfl, rfl⟩, fun h => ?_⟩
  have hlast := (h.2 _ rfl).2 _ rfl
  exact absurd hlast.count (by decide)

end Framing

section Starvation

def after (attempts : ℕ → Attempt) (s : Publisher) : ℕ → Publisher
  | 0 => s
  | n + 1 => iterate (attempts n) (after attempts s n)

def ReachesAwait (attempts : ℕ → Attempt) (s : Publisher) : Prop :=
  ∃ n, (after attempts s (n + 1)).asleep = true

/-- With enough messages the pass fails with `ENXIO` first. -/
def Sleeps (a : Attempt) : Prop :=
  a.opened = some .enxio ∨ a.opened = none ∧ ∃ k < 200, FirstFailure a.writes 0 k .enxio

def takes (a : Attempt) : ℕ :=
  match a.opened with
  | some _ => 0
  | none =>
    match (List.range 200).find? fun k => (a.writes k).isSome with
    | some k => k / 2 + 1
    | none => 100

variable {a : Attempt} {s : Publisher}

theorem asleep_of_empty (h : s.jsonQueue = []) : (iterate a s).asleep = true := by
  rw [iterate, if_pos h]

theorem iterate_sleeps (h : Sleeps a) :
    (iterate a s).asleep = true ∨ (iterate a s).jsonQueue = [] := by
  have hpass := passes_iterate a s
  generalize iterate a s = t at hpass ⊢
  cases hpass with
  | empty => exact .inl rfl
  | refused hqueue hopened =>
    rcases h with h | ⟨h, _⟩
    · rw [hopened] at h
      exact .inl (decide_eq_true (Option.some.inj h))
    · rw [hopened] at h
      cases h
  | written hqueue hopened hwrites =>
    rcases h with h | ⟨_, k, hk, hfirst⟩
    · rw [hopened] at h
      cases h
    · have hle : 2 * size 100 s.jsonQueue ≤ k := by
        by_contra hlt
        have hreturned := hwrites k (not_le.mp hlt)
        rw [hfirst.1] at hreturned
        cases hreturned
      refine .inr (List.drop_eq_nil_of_le ?_)
      unfold size at hle ⊢
      omega
  | @failed j errno _ hqueue hopened hj hfailed hrest hcount hkept hasleep =>
    rcases h with h | ⟨_, k, hk, hfirst⟩
    · rw [hopened] at h
      cases h
    · have hsame : j = k := by
        rcases lt_trichotomy j k with hlt | heq | hgt
        · have hnone := hfirst.2 j hlt
          rw [hfailed.1] at hnone
          cases hnone
        · exact heq
        · have hnone := hfailed.2 k hgt
          rw [hfirst.1] at hnone
          cases hnone
      have herrno := hfailed.1
      rw [hsame, hfirst.1, Option.some.injEq] at herrno
      rw [hasleep]
      exact .inl (decide_eq_true herrno.symm)

theorem takes_failed {k : ℕ} {errno : Errno} (hopened : a.opened = none) (hk : k < 200)
    (hfirst : FirstFailure a.writes 0 k errno) : takes a = k / 2 + 1 := by
  simp only [FirstFailure, Nat.zero_add] at hfirst
  have hfind : (List.range 200).find? (fun k => (a.writes k).isSome) = some k := by
    refine List.find?_range_eq_some.mpr ⟨by simp [hfirst.1], List.mem_range.mpr hk, ?_⟩
    intro j hj
    simp [hfirst.2 j hj]
  simp [takes, hopened, hfind]

theorem drop_takes {queue : List Message} (hopened : a.opened = none)
    (hwrites : ∀ k < 2 * size 100 queue, a.writes (0 + k) = none) :
    queue.drop (size 100 queue) = queue.drop (takes a) := by
  cases hfind : (List.range 200).find? fun k => (a.writes k).isSome with
  | none =>
    have htakes : takes a = 100 := by simp [takes, hopened, hfind]
    rw [htakes, size, List.drop_eq_drop_iff]
    omega
  | some k =>
    obtain ⟨hfailed, hk, _⟩ := List.find?_range_eq_some.mp hfind
    have htakes : takes a = k / 2 + 1 := by simp [takes, hopened, hfind]
    have hle : 2 * size 100 queue ≤ k := by
      by_contra hlt
      have hreturned := hwrites k (not_le.mp hlt)
      rw [Nat.zero_add] at hreturned
      simp [hreturned] at hfailed
    have hk : k < 200 := List.mem_range.mp hk
    unfold size at hle ⊢
    rw [htakes, List.drop_eq_drop_iff]
    omega

theorem iterate_takes (h : ¬ Sleeps a) (hqueue : s.jsonQueue ≠ []) :
    (iterate a s).asleep = false ∧ (iterate a s).jsonQueue = s.jsonQueue.drop (takes a) := by
  have hpass := passes_iterate a s
  generalize iterate a s = t at hpass ⊢
  cases hpass with
  | empty hempty => exact absurd hempty hqueue
  | refused _ hopened =>
    have htakes : takes a = 0 := by simp [takes, hopened]
    refine ⟨decide_eq_false fun herrno => h (.inl ?_), by rw [htakes, List.drop_zero]⟩
    rw [hopened, herrno]
  | written _ hopened hwrites => exact ⟨rfl, drop_takes hopened hwrites⟩
  | @failed k errno _ _ hopened hk hfirst hrest hcount hkept hasleep =>
    have hlt : k < 200 := by
      unfold size at hk
      omega
    rw [hasleep, hrest, takes_failed hopened hlt hfirst]
    refine ⟨decide_eq_false fun herrno => h (.inr ⟨hopened, k, hlt, ?_⟩), rfl⟩
    rw [← herrno]
    exact hfirst

variable {attempts : ℕ → Attempt}

theorem reaches_of_sleeps {m : ℕ} (h : Sleeps (attempts m)) : ReachesAwait attempts s := by
  cases iterate_sleeps (s := after attempts s m) h with
  | inl hasleep => exact ⟨m, hasleep⟩
  | inr hempty => exact ⟨m + 1, asleep_of_empty hempty⟩

theorem after_takes (hsleeps : ∀ m, ¬ Sleeps (attempts m)) (n : ℕ) :
    (after attempts s n).jsonQueue =
      s.jsonQueue.drop (∑ m ∈ Finset.range n, takes (attempts m)) := by
  induction n with
  | zero => simp [after]
  | succ n ih =>
    rw [after, Finset.sum_range_succ]
    by_cases hempty : (after attempts s n).jsonQueue = []
    · rw [iterate, if_pos hempty]
      rw [hempty, eq_comm, List.drop_eq_nil_iff] at ih
      rw [hempty, List.drop_eq_nil_of_le (by omega)]
    · rw [(iterate_takes (hsleeps n) hempty).2, ih, List.drop_drop]

theorem reaches_iff_emptied (hsleeps : ∀ m, ¬ Sleeps (attempts m)) :
    ReachesAwait attempts s ↔
      ∃ n, s.jsonQueue.length ≤ ∑ m ∈ Finset.range n, takes (attempts m) := by
  constructor
  · rintro ⟨n, hasleep⟩
    by_contra hleft
    push Not at hleft
    have hqueue : (after attempts s n).jsonQueue ≠ [] := by
      rw [after_takes hsleeps, ne_eq, List.drop_eq_nil_iff, not_le]
      exact hleft n
    rw [after, (iterate_takes (hsleeps n) hqueue).1] at hasleep
    cases hasleep
  · rintro ⟨n, hn⟩
    refine ⟨n, asleep_of_empty ?_⟩
    rw [after_takes hsleeps]
    exact List.drop_eq_nil_of_le hn

/-- The loop awaits again exactly when some pass can sleep on `ENXIO`, or the
passes together take all that is queued. -/
theorem reaches_await_iff (attempts : ℕ → Attempt) (s : Publisher) :
    ReachesAwait attempts s ↔ (∃ m, Sleeps (attempts m)) ∨
      ∃ n, s.jsonQueue.length ≤ ∑ m ∈ Finset.range n, takes (attempts m) := by
  by_cases hsleeps : ∃ m, Sleeps (attempts m)
  · obtain ⟨m, hm⟩ := hsleeps
    exact iff_of_true (reaches_of_sleeps hm) (.inl ⟨m, hm⟩)
  · rw [or_iff_right hsleeps]
    exact reaches_iff_emptied fun m hm => hsleeps ⟨m, hm⟩

/-- The pipe has been deleted, and one message is queued. -/
theorem deleted_pipe_starves :
    ¬ ReachesAwait (fun _ => ⟨some .enoent, fun _ => none⟩) ⟨[oneMessage], [], [oneMessage], true⟩ := by
  have hsleeps : ¬ Sleeps ⟨some .enoent, fun _ => none⟩ := by
    rintro (h | ⟨h, _⟩) <;> cases h
  rw [reaches_iff_emptied fun _ => hsleeps]
  rintro ⟨n, hn⟩
  simp [takes] at hn

end Starvation

end Cherum.TelemetryPublisher
