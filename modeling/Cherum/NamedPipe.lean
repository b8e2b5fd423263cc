import Mathlib

/-! A named pipe as POSIX describes it, without a bound on its capacity. Only
the ends and the unread data are modelled; which process holds which end, and
which calls block, is left to the programs that use the pipe: a call that would
block has no successor in their step functions. -/

namespace Cherum.NamedPipe

/-- Unread data does not survive the moment at which no end is open. -/
structure Fifo (β : Type*) where
  data : List β
  readers : ℕ
  writers : ℕ
  closed_empty : readers = 0 → writers = 0 → data = []
  deriving DecidableEq, Repr

/-- The outcomes of one read: bytes, end of file (empty, no writer), or `EAGAIN`
(empty, but a writer holds its end open), where a blocking read waits instead. -/
inductive ReadResult (β : Type*)
  | bytes (taken : List β)
  | eof
  | again
  deriving DecidableEq, Repr

variable {β : Type*}

namespace Fifo

def fresh : Fifo β := ⟨[], 0, 0, fun _ _ => rfl⟩

/-- The pipe after its ends changed: the data is discarded when none is left. -/
def withEnds (data : List β) (readers writers : ℕ) : Fifo β where
  data := if readers = 0 ∧ writers = 0 then [] else data
  readers := readers
  writers := writers
  closed_empty hr hw := by simp [hr, hw]

def openRead (p : Fifo β) : Fifo β := withEnds p.data (p.readers + 1) p.writers

def openWrite (p : Fifo β) : Fifo β := withEnds p.data p.readers (p.writers + 1)

def closeRead (p : Fifo β) : Fifo β := withEnds p.data (p.readers - 1) p.writers

def closeWrite (p : Fifo β) : Fifo β := withEnds p.data p.readers (p.writers - 1)

/-- Appends to the data; `none` is `EPIPE`, there is no reader. -/
def write (p : Fifo β) (bytes : List β) : Option (Fifo β) :=
  if p.readers = 0 then none else some (withEnds (p.data ++ bytes) p.readers p.writers)

def consume (p : Fifo β) (n : ℕ) : Fifo β := withEnds (p.data.drop n) p.readers p.writers

def read (p : Fifo β) (n : ℕ) : ReadResult β × Fifo β :=
  if p.data ≠ [] then (.bytes (p.data.take n), p.consume n)
  else if p.writers = 0 then (.eof, p) else (.again, p)

theorem withEnds_data (data : List β) (r w : ℕ) (h : r = 0 → w = 0 → data = []) :
    (withEnds data r w).data = data := by
  by_cases hrw : r = 0 ∧ w = 0
  · rw [h hrw.1 hrw.2]
    simp [withEnds]
  · simp [withEnds, hrw]

@[simp] theorem openRead_data (p : Fifo β) : p.openRead.data = p.data :=
  withEnds_data _ _ _ fun h => absurd h (Nat.succ_ne_zero _)

@[simp] theorem openWrite_data (p : Fifo β) : p.openWrite.data = p.data :=
  withEnds_data _ _ _ fun _ h => absurd h (Nat.succ_ne_zero _)

@[simp] theorem consume_data (p : Fifo β) (n : ℕ) : (p.consume n).data = p.data.drop n :=
  withEnds_data _ _ _ fun hr hw => by rw [p.closed_empty hr hw, List.drop_nil]

/-- Closing an end loses nothing unless it is the last one and data is unread. -/
def CloseKeeps (p : Fifo β) (left : ℕ) : Prop := left = 0 → p.data = []

instance [DecidableEq β] (p : Fifo β) (left : ℕ) : Decidable (p.CloseKeeps left) :=
  inferInstanceAs (Decidable (left = 0 → p.data = []))

theorem closeRead_data (p : Fifo β) (h : p.CloseKeeps (p.readers - 1 + p.writers)) :
    p.closeRead.data = p.data :=
  withEnds_data _ _ _ fun hr hw => h (by omega)

theorem closeWrite_data (p : Fifo β) (h : p.CloseKeeps (p.readers + (p.writers - 1))) :
    p.closeWrite.data = p.data :=
  withEnds_data _ _ _ fun hr hw => h (by omega)

theorem closeRead_loses (p : Fifo β) (h : ¬ p.CloseKeeps (p.readers - 1 + p.writers)) :
    p.data ≠ [] ∧ p.closeRead.data = [] := by
  obtain ⟨hleft, hdata⟩ := Classical.not_imp.mp h
  refine ⟨hdata, ?_⟩
  have hends : p.readers - 1 = 0 ∧ p.writers = 0 := by omega
  simp [closeRead, withEnds, hends]

theorem closeWrite_loses (p : Fifo β) (h : ¬ p.CloseKeeps (p.readers + (p.writers - 1))) :
    p.data ≠ [] ∧ p.closeWrite.data = [] := by
  obtain ⟨hleft, hdata⟩ := Classical.not_imp.mp h
  refine ⟨hdata, ?_⟩
  have hends : p.readers = 0 ∧ p.writers - 1 = 0 := by omega
  simp [closeWrite, withEnds, hends]

theorem write_eq_some {p q : Fifo β} {bytes : List β} (h : p.write bytes = some q) :
    p.readers ≠ 0 ∧ q.data = p.data ++ bytes ∧ q.readers = p.readers ∧ q.writers = p.writers := by
  unfold write at h
  split at h
  · cases h
  · next hr =>
    cases h
    exact ⟨hr, withEnds_data _ _ _ fun h0 => absurd h0 hr, rfl, rfl⟩

theorem write_eq_none {p : Fifo β} {bytes : List β} : p.write bytes = none ↔ p.readers = 0 := by
  by_cases h : p.readers = 0 <;> simp [write, h]

theorem read_bytes {p q : Fifo β} {n : ℕ} {taken : List β} (h : p.read n = (.bytes taken, q)) :
    p.data ≠ [] ∧ taken = p.data.take n ∧ q = p.consume n := by
  unfold read at h
  split at h
  · next hd =>
    cases h
    exact ⟨hd, rfl, rfl⟩
  · split at h <;> cases h

theorem read_eof {p q : Fifo β} {n : ℕ} (h : p.read n = (.eof, q)) :
    p.data = [] ∧ p.writers = 0 ∧ q = p := by
  unfold read at h
  split at h
  · cases h
  · next hd =>
    split at h
    · next hw =>
      cases h
      exact ⟨not_not.mp hd, hw, rfl⟩
    · cases h

theorem read_again {p q : Fifo β} {n : ℕ} (h : p.read n = (.again, q)) :
    p.data = [] ∧ p.writers ≠ 0 ∧ q = p := by
  unfold read at h
  split at h
  · cases h
  · next hd =>
    split at h
    · cases h
    · next hw =>
      cases h
      exact ⟨not_not.mp hd, hw, rfl⟩

end Fifo

end Cherum.NamedPipe
