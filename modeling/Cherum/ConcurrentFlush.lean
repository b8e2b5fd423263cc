import Cherum.ActionRuns
import Cherum.TelemetryStore

/-! One store shared by the handlers of many requests, as the threads of the
server interleave them between their atomic steps. A handler stores its point,
checks whether a flush is due, and flushes: it tests the buffer, hands its
content to a write that does not fail, assigns a new list and notes the time.
The end of a request flushes as well. What becomes of the points shows in the
order of the appends, the writes and the new lists alone. -/

namespace Cherum.ConcurrentFlush
open ActionRuns
open TelemetryStore (Point bufferSize flushInterval seconds)

inductive Pc
  | storing (point : Point)
  | checking
  | testing
  | writing
  | resetting
  | stamping
  | finished

structure Entry where
  handler : ℕ
  point : Point

structure Config where
  buffer : List Entry
  lastFlush : ℤ
  /-- None for a handler that has not arrived. -/
  handlers : ℕ → Option Pc
  appended : List Entry
  /-- The content of the buffer at each call of `write`. -/
  handed : List (List Entry)

def initial (now : ℤ) : Config := ⟨[], now, fun _ => none, [], []⟩

inductive Action
  /-- A post arrives at its `store_*` call. -/
  | arrive (i : ℕ) (point : Point)
  /-- A request ends, and flushes. -/
  | teardown (i : ℕ)
  | append (i : ℕ)
  | check (i : ℕ) (now : ℤ)
  | test (i : ℕ)
  | write (i : ℕ)
  | reset (i : ℕ)
  | stamp (i : ℕ) (now : ℤ)

def Config.goTo (c : Config) (i : ℕ) (pc : Pc) : Config :=
  { c with handlers := Function.update c.handlers i (some pc) }

@[simp] theorem goTo_self (c : Config) (i : ℕ) (pc : Pc) : (c.goTo i pc).handlers i = some pc :=
  Function.update_self ..

theorem goTo_other (c : Config) {i j : ℕ} (pc : Pc) (h : j ≠ i) :
    (c.goTo i pc).handlers j = c.handlers j := Function.update_of_ne h ..

def step (c : Config) : Action → Option Config
  | .arrive i point =>
    match c.handlers i with
    | none => some (c.goTo i (.storing point))
    | _ => none
  | .teardown i =>
    match c.handlers i with
    | none => some (c.goTo i .testing)
    | _ => none
  | .append i =>
    match c.handlers i with
    | some (.storing point) =>
      some { c.goTo i .checking with
        buffer := c.buffer ++ [⟨i, point⟩], appended := c.appended ++ [⟨i, point⟩] }
    | _ => none
  | .check i now =>
    match c.handlers i with
    | some .checking =>
      if bufferSize ≤ c.buffer.length ∨ flushInterval ≤ seconds (now - c.lastFlush) then
        some (c.goTo i .testing)
      else some (c.goTo i .finished)
    | _ => none
  | .test i =>
    match c.handlers i with
    | some .testing => some (c.goTo i (if c.buffer.isEmpty then .finished else .writing))
    | _ => none
  | .write i =>
    match c.handlers i with
    | some .writing => some { c.goTo i .resetting with handed := c.handed ++ [c.buffer] }
    | _ => none
  | .reset i =>
    match c.handlers i with
    | some .resetting => some { c.goTo i .stamping with buffer := [] }
    | _ => none
  | .stamp i now =>
    match c.handlers i with
    | some .stamping => some { c.goTo i .finished with lastFlush := now }
    | _ => none

/-- Every point appended is in the buffer or was handed over, none twice. -/
def Intact (c : Config) : Prop :=
  (∀ e ∈ c.appended, e ∈ c.buffer ∨ e ∈ c.handed.flatten) ∧ c.handed.flatten.Nodup

/-- What the buffer holds: nothing, points that no write was given, or points that
one was. -/
inductive Phase
  | empty
  | filling
  | taken

/-- How appends, writes and new lists have to follow each other: from the first append
to a list only appends come before a write, and after it the new list comes first.
A write of an empty list may come at any time before the first append. -/
def Phase.next : Phase → Action → Option Phase
  | .empty, .append _ => some .filling
  | .filling, .append _ => some .filling
  | .taken, .append _ => none
  | .empty, .write _ => some .empty
  | .filling, .write _ => some .taken
  | .taken, .write _ => none
  | .empty, .reset _ => some .empty
  | .filling, .reset _ => none
  | .taken, .reset _ => some .empty
  | phase, _ => some phase

def Orderly (acts : List Action) : Prop := (run Phase.next .empty acts).isSome

inductive Moves (c : Config) : Action → Config → Prop
  | arrive {i : ℕ} {point : Point} (hpc : c.handlers i = none) :
      Moves c (.arrive i point) (c.goTo i (.storing point))
  | quiet {a : Action} {i : ℕ} {pc : Pc} {time : ℤ} (hnext : ∀ p, Phase.next p a = some p)
      (hpc : ∀ point, pc ≠ .storing point) (hwas : c.handlers i ≠ some .resetting) :
      Moves c a { c.goTo i pc with lastFlush := time }
  | append {i : ℕ} {point : Point} (hpc : c.handlers i = some (.storing point)) :
      Moves c (.append i) { c.goTo i .checking with
        buffer := c.buffer ++ [⟨i, point⟩], appended := c.appended ++ [⟨i, point⟩] }
  | write {i : ℕ} (hpc : c.handlers i = some .writing) :
      Moves c (.write i) { c.goTo i .resetting with handed := c.handed ++ [c.buffer] }
  | reset {i : ℕ} (hpc : c.handlers i = some .resetting) :
      Moves c (.reset i) { c.goTo i .stamping with buffer := [] }

variable {c d : Config} {a : Action}

theorem moves_of_step (h : step c a = some d) : Moves c a d := by
  cases a with
  | arrive i point =>
    simp only [step] at h
    split at h
    · next hpc =>
      cases h
      exact .arrive hpc
    · cases h
  | teardown i =>
    simp only [step] at h
    split at h
    · next hpc =>
      cases h
      exact .quiet (by rintro ⟨⟩ <;> rfl) (by simp) (by simp [hpc])
    · cases h
  | append i =>
    simp only [step] at h
    split at h
    · next point hpc =>
      cases h
      exact .append hpc
    · cases h
  | check i now =>
    simp only [step] at h
    split at h
    · next hpc =>
      split at h
      · cases h
        exact .quiet (by rintro ⟨⟩ <;> rfl) (by simp) (by simp [hpc])
      · cases h
        exact .quiet (by rintro ⟨⟩ <;> rfl) (by simp) (by simp [hpc])
    · cases h
  | test i =>
    simp only [step] at h
    split at h
    · next hpc =>
      cases h
      refine .quiet (by rintro ⟨⟩ <;> rfl) ?_ (by simp [hpc])
      intro point
      split <;> simp
    · cases h
  | write i =>
    simp only [step] at h
    split at h
    · next hpc =>
      cases h
      exact .write hpc
    · cases h
  | reset i =>
    simp only [step] at h
    split at h
    · next hpc =>
      cases h
      exact .reset hpc
    · cases h
  | stamp i now =>
    simp only [step] at h
    split at h
    · next hpc =>
      cases h
      exact .quiet (by rintro ⟨⟩ <;> rfl) (by simp) (by simp [hpc])
    · cases h

/-- A handler that has appended its point does not append another. -/
structure Inv (c : Config) : Prop where
  past : ∀ e ∈ c.appended, ∃ pc, c.handlers e.handler = some pc ∧ ∀ point, pc ≠ .storing point
  bufferNodup : c.buffer.Nodup
  bufferAppended : ∀ e ∈ c.buffer, e ∈ c.appended
  handedAppended : ∀ e ∈ c.handed.flatten, e ∈ c.appended

theorem inv_initial (now : ℤ) : Inv (initial now) := by
  refine ⟨?_, .nil, ?_, ?_⟩ <;> simp [initial]

theorem Inv.fresh (hc : Inv c) {i : ℕ} {point : Point}
    (hpc : c.handlers i = some (.storing point)) : ∀ e ∈ c.appended, e.handler ≠ i := by
  intro e he hi
  obtain ⟨pc, hpast, hother⟩ := hc.past e he
  rw [hi, hpc, Option.some.injEq] at hpast
  exact hother point hpast.symm

theorem Inv.past_goTo (hc : Inv c) {i : ℕ} {pc : Pc}
    (hpc : c.handlers i = none ∨ ∀ point, pc ≠ .storing point) :
    ∀ e ∈ c.appended, ∃ q, (c.goTo i pc).handlers e.handler = some q ∧
      ∀ point, q ≠ .storing point := by
  intro e he
  obtain ⟨q, hq, hother⟩ := hc.past e he
  by_cases hi : e.handler = i
  · cases hpc with
    | inl hnone =>
      rw [hi, hnone] at hq
      cases hq
    | inr hpc => exact ⟨pc, by rw [hi, goTo_self], hpc⟩
  · exact ⟨q, by rw [goTo_other c pc hi, hq], hother⟩

theorem inv_step (c : Config) (a : Action) (d : Config) (hc : Inv c) (h : step c a = some d) :
    Inv d := by
  cases moves_of_step h with
  | arrive hpc =>
    exact ⟨hc.past_goTo (.inl hpc), hc.bufferNodup, hc.bufferAppended, hc.handedAppended⟩
  | quiet _ hpc =>
    exact ⟨hc.past_goTo (.inr hpc), hc.bufferNodup, hc.bufferAppended, hc.handedAppended⟩
  | @append i point hpc =>
    have hfresh : ⟨i, point⟩ ∉ c.buffer :=
      fun he => hc.fresh hpc _ (hc.bufferAppended _ he) rfl
    refine ⟨?_, ?_, ?_, ?_⟩
    · intro e he
      cases List.mem_append.mp he with
      | inl he => exact hc.past_goTo (.inr (by simp)) e he
      | inr he =>
        rw [List.mem_singleton.mp he]
        exact ⟨.checking, goTo_self c i .checking, by simp⟩
    · exact List.nodup_append_comm.mp (List.nodup_cons.mpr ⟨hfresh, hc.bufferNodup⟩)
    · intro e he
      cases List.mem_append.mp he with
      | inl he => exact List.mem_append_left _ (hc.bufferAppended e he)
      | inr he => exact List.mem_append_right _ he
    · exact fun e he => List.mem_append_left _ (hc.handedAppended e he)
  | write hpc =>
    refine ⟨hc.past_goTo (.inr (by simp)), hc.bufferNodup, hc.bufferAppended, ?_⟩
    intro e he
    rw [List.flatten_append, List.flatten_singleton] at he
    cases List.mem_append.mp he with
    | inl he => exact hc.handedAppended e he
    | inr he => exact hc.bufferAppended e he
  | reset hpc =>
    exact ⟨hc.past_goTo (.inr (by simp)), .nil, fun e he => absurd he List.not_mem_nil,
      hc.handedAppended⟩

theorem lost_step (c : Config) (a : Action) (d : Config) (hc : Inv c) (hlost : ¬ Intact c)
    (h : step c a = some d) : ¬ Intact d := by
  refine fun hd => hlost ?_
  cases moves_of_step h with
  | arrive => exact hd
  | quiet => exact hd
  | @append i point hpc =>
    refine ⟨fun e he => ?_, hd.2⟩
    refine (hd.1 e (List.mem_append_left _ he)).imp_left fun hbuffer => ?_
    cases List.mem_append.mp hbuffer with
    | inl hbuffer => exact hbuffer
    | inr hbuffer =>
      rw [List.mem_singleton.mp hbuffer] at he
      exact absurd rfl (hc.fresh hpc _ he)
  | write =>
    unfold Intact at hd
    simp only [List.flatten_append, List.flatten_singleton, List.nodup_append] at hd
    refine ⟨fun e he => ?_, hd.2.1⟩
    cases hd.1 e he with
    | inl hbuffer => exact .inl hbuffer
    | inr hhanded => exact (List.mem_append.mp hhanded).symm
  | reset =>
    refine ⟨fun e he => ?_, hd.2⟩
    exact (hd.1 e he).imp_left fun hempty => absurd hempty List.not_mem_nil

theorem resetting_goTo {i j : ℕ} {pc : Pc} (hwas : c.handlers i ≠ some .resetting)
    (h : c.handlers j = some .resetting) : (c.goTo i pc).handlers j = some .resetting := by
  have hne : j ≠ i := fun hij => hwas (hij ▸ h)
  rw [goTo_other c pc hne, h]

/-- The buffer is as the order of the steps so far tells; after a write of points its
handler still has to assign the new list. -/
def Holds (c : Config) : Phase → Prop
  | .empty => c.buffer = []
  | .filling => c.buffer ≠ [] ∧ ∀ e ∈ c.buffer, e ∉ c.handed.flatten
  | .taken => c.buffer ≠ [] ∧ (∀ e ∈ c.buffer, e ∈ c.handed.flatten) ∧
      ∃ i, c.handlers i = some .resetting

/-- A point is lost or was handed over twice, or will be once the handler that stands
before its new list goes on. -/
def Doomed (c : Config) : Prop :=
  ¬ Intact c ∨ (∃ i, c.handlers i = some .resetting) ∧
    (∃ e ∈ c.buffer, e ∈ c.handed.flatten) ∧ ∃ e ∈ c.buffer, e ∉ c.handed.flatten

theorem repeated_write {i : ℕ} {e : Entry} (he : e ∈ c.buffer) (hhanded : e ∈ c.handed.flatten) :
    ¬ Intact { c.goTo i .resetting with handed := c.handed ++ [c.buffer] } := by
  intro hd
  have hnodup := hd.2
  rw [List.flatten_append, List.flatten_singleton, List.nodup_append] at hnodup
  exact hnodup.2.2 e hhanded e he rfl

theorem lost_reset {i : ℕ} {e : Entry} (hc : Inv c) (he : e ∈ c.buffer)
    (hhanded : e ∉ c.handed.flatten) : ¬ Intact { c.goTo i .stamping with buffer := [] } := by
  intro hd
  cases hd.1 e (hc.bufferAppended e he) with
  | inl hempty => exact List.not_mem_nil hempty
  | inr hd => exact hhanded hd

theorem doomed_step (c : Config) (a : Action) (d : Config) (hc : Inv c ∧ Doomed c)
    (h : step c a = some d) : Inv d ∧ Doomed d := by
  obtain ⟨hinv, hdoomed⟩ := hc
  refine ⟨inv_step c a d hinv h, ?_⟩
  cases hdoomed with
  | inl hlost => exact .inl (lost_step c a d hinv hlost h)
  | inr hmixed =>
    obtain ⟨⟨j, hj⟩, ⟨e, he, htaken⟩, f, hf, hleft⟩ := hmixed
    cases moves_of_step h with
    | arrive hpc =>
      exact .inr ⟨⟨j, resetting_goTo (by simp [hpc]) hj⟩, ⟨e, he, htaken⟩, f, hf, hleft⟩
    | quiet _ _ hwas => exact .inr ⟨⟨j, resetting_goTo hwas hj⟩, ⟨e, he, htaken⟩, f, hf, hleft⟩
    | append hpc =>
      exact .inr ⟨⟨j, resetting_goTo (by simp [hpc]) hj⟩,
        ⟨e, List.mem_append_left _ he, htaken⟩, f, List.mem_append_left _ hf, hleft⟩
    | write => exact .inl (repeated_write he htaken)
    | reset => exact .inl (lost_reset hinv hf hleft)

/-- One step follows the order, and leaves the buffer as the order tells with every
point in its place; or it breaks the order, and with it some point is doomed. -/
theorem phase_step (c : Config) (p : Phase) (a : Action) (d : Config)
    (hc : Inv c ∧ Intact c ∧ Holds c p) (h : step c a = some d) :
    (∃ q, Phase.next p a = some q ∧ Inv d ∧ Intact d ∧ Holds d q) ∨
      Phase.next p a = none ∧ Inv d ∧ Doomed d := by
  obtain ⟨hinv, hintact, hholds⟩ := hc
  have hnext := inv_step c a d hinv h
  cases moves_of_step h with
  | arrive hpc =>
    refine .inl ⟨p, by cases p <;> rfl, hnext, hintact, ?_⟩
    cases p with
    | empty => exact hholds
    | filling => exact hholds
    | taken =>
      obtain ⟨hne, htaken, j, hj⟩ := hholds
      exact ⟨hne, htaken, j, resetting_goTo (by simp [hpc]) hj⟩
  | quiet hquiet _ hwas =>
    refine .inl ⟨p, hquiet p, hnext, hintact, ?_⟩
    cases p with
    | empty => exact hholds
    | filling => exact hholds
    | taken =>
      obtain ⟨hne, htaken, j, hj⟩ := hholds
      exact ⟨hne, htaken, j, resetting_goTo hwas hj⟩
  | @append i point hpc =>
    have hnew : ⟨i, point⟩ ∉ c.handed.flatten :=
      fun hhanded => hinv.fresh hpc _ (hinv.handedAppended _ hhanded) rfl
    have hintact' : Intact { c.goTo i .checking with
        buffer := c.buffer ++ [⟨i, point⟩], appended := c.appended ++ [⟨i, point⟩] } := by
      refine ⟨fun e he => ?_, hintact.2⟩
      cases List.mem_append.mp he with
      | inl he => exact (hintact.1 e he).imp_left (List.mem_append_left _)
      | inr he => exact .inl (List.mem_append_right _ he)
    have hfilling : (∀ e ∈ c.buffer, e ∉ c.handed.flatten) →
        ∀ e ∈ c.buffer ++ [⟨i, point⟩], e ∉ c.handed.flatten := by
      intro hleft e he
      cases List.mem_append.mp he with
      | inl he => exact hleft e he
      | inr he => exact List.mem_singleton.mp he ▸ hnew
    cases p with
    | empty =>
      have hleft : ∀ e ∈ c.buffer, e ∉ c.handed.flatten := by
        rw [show c.buffer = [] from hholds]
        exact fun e he => absurd he List.not_mem_nil
      exact .inl ⟨.filling, rfl, hnext, hintact', by simp, hfilling hleft⟩
    | filling => exact .inl ⟨.filling, rfl, hnext, hintact', by simp, hfilling hholds.2⟩
    | taken =>
      obtain ⟨hne, htaken, j, hj⟩ := hholds
      obtain ⟨e, he⟩ := List.exists_mem_of_ne_nil _ hne
      exact .inr ⟨rfl, hnext, .inr ⟨⟨j, resetting_goTo (by simp [hpc]) hj⟩,
        ⟨e, List.mem_append_left _ he, htaken e he⟩, _, List.mem_append_right _ (.head _), hnew⟩⟩
  | @write i hpc =>
    have hintact' : (∀ e ∈ c.buffer, e ∉ c.handed.flatten) →
        Intact { c.goTo i .resetting with handed := c.handed ++ [c.buffer] } := by
      intro hleft
      unfold Intact
      simp only [List.flatten_append, List.flatten_singleton, List.nodup_append]
      refine ⟨fun e he => (hintact.1 e he).imp_right (List.mem_append_left _), hintact.2,
        hinv.bufferNodup, fun e hhanded f hf hef => hleft f hf (hef ▸ hhanded)⟩
    cases p with
    | empty =>
      have hbuffer : c.buffer = [] := hholds
      refine .inl ⟨.empty, rfl, hnext, hintact' ?_, hholds⟩
      rw [hbuffer]
      exact fun e he => absurd he List.not_mem_nil
    | filling =>
      refine .inl ⟨.taken, rfl, hnext, hintact' hholds.2, hholds.1, fun e he => ?_, i, ?_⟩
      · rw [List.flatten_append, List.flatten_singleton]
        exact List.mem_append_right _ he
      · exact goTo_self c i .resetting
    | taken =>
      obtain ⟨e, he⟩ := List.exists_mem_of_ne_nil _ hholds.1
      exact .inr ⟨rfl, hnext, .inl (repeated_write he (hholds.2.1 e he))⟩
  | @reset i hpc =>
    have hintact' : (∀ e ∈ c.buffer, e ∈ c.handed.flatten) →
        Intact { c.goTo i .stamping with buffer := [] } :=
      fun htaken => ⟨fun e he => .inr ((hintact.1 e he).elim (htaken e) id), hintact.2⟩
    cases p with
    | empty =>
      have hbuffer : c.buffer = [] := hholds
      refine .inl ⟨.empty, rfl, hnext, hintact' ?_, rfl⟩
      rw [hbuffer]
      exact fun e he => absurd he List.not_mem_nil
    | filling =>
      obtain ⟨e, he⟩ := List.exists_mem_of_ne_nil _ hholds.1
      exact .inr ⟨rfl, hnext, .inl (lost_reset hinv he (hholds.2 e he))⟩
    | taken => exact .inl ⟨.empty, rfl, hnext, hintact' hholds.2.1, rfl⟩

/-- When all handlers are finished, no point is lost or handed over twice exactly
when the appends, the writes and the new lists came in their order. -/
theorem points_kept {now : ℤ} {acts : List Action} (hrun : run step (initial now) acts = some c)
    (hdone : ∀ i pc, c.handlers i = some pc → pc = .finished) : Intact c ↔ Orderly acts := by
  have hinitial : Inv (initial now) ∧ Intact (initial now) ∧ Holds (initial now) .empty :=
    ⟨inv_initial now, ⟨by simp [initial], .nil⟩, rfl⟩
  cases run_watched phase_step doomed_step hinitial hrun with
  | inl hordered =>
    obtain ⟨p, hp, _, hintact, _⟩ := hordered
    exact iff_of_true hintact (Option.isSome_iff_exists.mpr ⟨p, hp⟩)
  | inr hbroken =>
    obtain ⟨hstops, _, hdoomed⟩ := hbroken
    have hlost : ¬ Intact c := by
      refine hdoomed.resolve_right fun hmixed => ?_
      obtain ⟨⟨i, hi⟩, _⟩ := hmixed
      cases hdone i .resetting hi
    exact iff_of_false hlost (by simp [Orderly, hstops])

def firstPoint : Point := TelemetryStore.armedPoint (.bool true) (.str "default")

def secondPoint : Point := TelemetryStore.armedPoint (.bool false) (.str "default")

def firstWrite : List Action :=
  [.arrive 0 firstPoint, .append 0, .check 0 6000000, .test 0, .write 0]

/-- The second handler appends between the write and the new list of the first,
and finds nothing due: its point is nowhere. -/
def appendInBetween : List Action :=
  firstWrite ++ [.arrive 1 secondPoint, .append 1, .reset 0, .stamp 0 6000000, .check 1 6000000]

def flushInBetween : List Action :=
  firstWrite ++ [.teardown 1, .test 1, .write 1, .reset 0, .stamp 0 6000000, .reset 1,
    .stamp 1 6000000]

/-- Two handlers store a point each, find a flush due at the same time, and write in
turn: the first hands over both points, the second an empty list. -/
def writesOverlap : List Action :=
  [.arrive 0 firstPoint, .arrive 1 secondPoint, .append 0, .append 1, .check 0 6000000,
    .check 1 6000000, .test 0, .test 1, .write 0, .reset 0, .write 1, .stamp 0 6000000, .reset 1,
    .stamp 1 6000000]

theorem points_kept_overlap :
    ∃ c, run step (initial 0) writesOverlap = some c ∧
      c.handed = [[⟨0, firstPoint⟩, ⟨1, secondPoint⟩], []] ∧ Intact c := by
  have hrun : ∃ c, run step (initial 0) writesOverlap = some c ∧
      c.handed = [[⟨0, firstPoint⟩, ⟨1, secondPoint⟩], []] ∧
      (∀ i, 2 ≤ i → c.handlers i = none) ∧ c.handlers 0 = some .finished ∧
      c.handlers 1 = some .finished := by
    refine ⟨_, rfl, rfl, fun i hi => ?_, rfl, rfl⟩
    have h0 : i ≠ 0 := by omega
    have h1 : i ≠ 1 := by omega
    simp [initial, Config.goTo, Function.update, h0, h1]
  obtain ⟨c, hc, hhanded, hother, hfirst, hsecond⟩ := hrun
  refine ⟨c, hc, hhanded, (points_kept hc fun i pc hpc => ?_).mpr rfl⟩
  rcases i with _ | _ | i
  · exact (Option.some.inj (hfirst.symm.trans hpc)).symm
  · exact (Option.some.inj (hsecond.symm.trans hpc)).symm
  · rw [hother (i + 2) (Nat.le_add_left 2 i)] at hpc
    cases hpc

/-- All handlers have finished, and a point is lost in the one run and handed
over twice in the other. -/
theorem points_lost_and_repeated :
    (∃ c, run step (initial 0) appendInBetween = some c ∧
      c.handlers 0 = some .finished ∧ c.handlers 1 = some .finished ∧ c.buffer = [] ∧
      c.appended = [⟨0, firstPoint⟩, ⟨1, secondPoint⟩] ∧ c.handed = [[⟨0, firstPoint⟩]] ∧
      ¬ Intact c) ∧
    ∃ c, run step (initial 0) flushInBetween = some c ∧
      c.handlers 0 = some .finished ∧ c.handlers 1 = some .finished ∧
      c.handed = [[⟨0, firstPoint⟩], [⟨0, firstPoint⟩]] ∧ ¬ Intact c := by
  have hlost : ∃ c, run step (initial 0) appendInBetween = some c ∧
      c.handlers 0 = some .finished ∧ c.handlers 1 = some .finished ∧ c.buffer = [] ∧
      c.appended = [⟨0, firstPoint⟩, ⟨1, secondPoint⟩] ∧ c.handed = [[⟨0, firstPoint⟩]] :=
    ⟨_, rfl, rfl, rfl, rfl, rfl, rfl⟩
  have hrepeated : ∃ c, run step (initial 0) flushInBetween = some c ∧
      c.handlers 0 = some .finished ∧ c.handlers 1 = some .finished ∧
      c.handed = [[⟨0, firstPoint⟩], [⟨0, firstPoint⟩]] := ⟨_, rfl, rfl, rfl, rfl⟩
  obtain ⟨c, hrun, hfirst, hsecond, hbuffer, happended, hhanded⟩ := hlost
  obtain ⟨d, hrun', hfirst', hsecond', hhanded'⟩ := hrepeated
  refine ⟨⟨c, hrun, hfirst, hsecond, hbuffer, happended, hhanded, fun h => ?_⟩,
    d, hrun', hfirst', hsecond', hhanded', fun h => ?_⟩
  · have hkept := h.1 ⟨1, secondPoint⟩ (by simp [happended])
    simp [hbuffer, hhanded] at hkept
  · have hnodup := h.2
    simp [hhanded'] at hnodup

end Cherum.ConcurrentFlush
