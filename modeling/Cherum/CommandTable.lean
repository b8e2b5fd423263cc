import Cherum.FirstByKey

/-! The `commands` table of schema.sql under the statements the server runs on
it. Ids come from the AUTOINCREMENT sequence, a signed 64-bit counter; no
statement deletes a row. `created_at` is `CURRENT_TIMESTAMP`, in whole seconds. -/

namespace Cherum.CommandTable
open FirstByKey

structure CommandRow where
  id : ℕ
  command : String
  done : ℕ
  createdAt : ℕ
  deriving DecidableEq, Repr

/-- SQLite integers are signed 64-bit numbers. -/
def integerBound : ℕ := 2 ^ 63

/-- Rows in insertion order. -/
structure Table where
  rows : List CommandRow
  sequence : ℕ
  ids_increasing : rows.Pairwise fun (a b : CommandRow) => a.id < b.id
  ids_issued : ∀ r ∈ rows, r.id ≤ sequence
  sequence_bounded : sequence < integerBound

def CommandRow.setDone (r : CommandRow) : CommandRow := { r with done := 1 }

@[simp] theorem setDone_id (r : CommandRow) : r.setDone.id = r.id := rfl
@[simp] theorem setDone_command (r : CommandRow) : r.setDone.command = r.command := rfl
@[simp] theorem setDone_done (r : CommandRow) : r.setDone.done = 1 := rfl
@[simp] theorem setDone_createdAt (r : CommandRow) : r.setDone.createdAt = r.createdAt := rfl

namespace Table

def empty : Table := ⟨[], 0, .nil, by simp, by decide⟩

def nextRow (t : Table) (command : String) (done now : ℕ) : CommandRow :=
  ⟨t.sequence + 1, command, done, now⟩

theorem ids_increasing_snoc (t : Table) (command : String) (done now : ℕ) :
    (t.rows ++ [t.nextRow command done now]).Pairwise
      fun (a b : CommandRow) => a.id < b.id := by
  refine List.pairwise_append.mpr ⟨t.ids_increasing, List.pairwise_singleton _ _, ?_⟩
  intro a ha b hb
  rw [List.mem_singleton.mp hb]
  exact Nat.lt_succ_of_le (t.ids_issued a ha)

theorem ids_issued_snoc (t : Table) (command : String) (done now : ℕ) :
    ∀ r ∈ t.rows ++ [t.nextRow command done now], r.id ≤ t.sequence + 1 := by
  intro r hr
  cases List.mem_append.mp hr with
  | inl hr => exact Nat.le_succ_of_le (t.ids_issued r hr)
  | inr hr => exact (congrArg CommandRow.id (List.mem_singleton.mp hr)).le

/-- `INSERT INTO commands (command, done) VALUES (?, ?)`; `none` is `SQLITE_FULL`,
the sequence has issued its greatest id. -/
def insert (t : Table) (command : String) (done now : ℕ) : Option Table :=
  if h : t.sequence + 1 < integerBound then
    some {
      rows := t.rows ++ [t.nextRow command done now]
      sequence := t.sequence + 1
      ids_increasing := t.ids_increasing_snoc command done now
      ids_issued := t.ids_issued_snoc command done now
      sequence_bounded := h }
  else none

/-- `UPDATE commands SET done = 1 WHERE id = ?`. -/
def markDone (t : Table) (id : ℕ) : Table where
  rows := t.rows.map fun r => if r.id = id then r.setDone else r
  sequence := t.sequence
  ids_increasing := by
    refine List.pairwise_map.mpr (t.ids_increasing.imp fun {a b} hab => ?_)
    split <;> split <;> exact hab
  ids_issued := by
    intro r hr
    obtain ⟨q, hq, hqr⟩ := List.mem_map.mp hr
    rw [← hqr]
    split <;> exact t.ids_issued q hq
  sequence_bounded := t.sequence_bounded

def Selects (t : Table) (query : Option CommandRow) : Prop :=
  FirstDesc CommandRow.createdAt t.rows query

instance (t : Table) (query : Option CommandRow) : Decidable (t.Selects query) :=
  inferInstanceAs (Decidable (FirstDesc _ _ _))

def newest? (t : Table) : Option CommandRow := t.rows.getLast?

theorem insert_eq_some {t u : Table} {command : String} {done now : ℕ}
    (h : t.insert command done now = some u) :
    u.rows = t.rows ++ [t.nextRow command done now] := by
  unfold insert at h
  split at h
  · cases h
    rfl
  · cases h

@[simp] theorem markDone_rows (t : Table) (id : ℕ) :
    (t.markDone id).rows = t.rows.map fun r => if r.id = id then r.setDone else r := rfl

theorem eq_of_id {t : Table} {q r : CommandRow} (hq : q ∈ t.rows) (hr : r ∈ t.rows)
    (h : q.id = r.id) : q = r := by
  have hnodup : (t.rows.map CommandRow.id).Nodup :=
    List.pairwise_map.mpr (t.ids_increasing.imp fun hab => hab.ne)
  exact List.inj_on_of_nodup_map hnodup hq hr h

theorem newest?_split {t : Table} {r : CommandRow} (h : t.newest? = some r) :
    ∃ earlier, t.rows = earlier ++ [r] ∧ r ∉ earlier ∧ ∀ q ∈ earlier, q.id < r.id := by
  obtain ⟨earlier, hrows⟩ := List.getLast?_eq_some_iff.mp h
  have hids := t.ids_increasing
  rw [hrows] at hids
  have hlt : ∀ q ∈ earlier, q.id < r.id :=
    fun q hq => (List.pairwise_append.mp hids).2.2 q hq r List.mem_cons_self
  exact ⟨earlier, hrows, fun hr => (hlt r hr).false, hlt⟩

theorem newest?_greatest {t : Table} {r : CommandRow} (h : t.newest? = some r) :
    r ∈ t.rows ∧ ∀ q ∈ t.rows, q.id ≤ r.id := by
  obtain ⟨earlier, hrows, _, hlt⟩ := newest?_split h
  rw [hrows]
  refine ⟨List.mem_append_right _ List.mem_cons_self, fun q hq => ?_⟩
  cases List.mem_append.mp hq with
  | inl hq => exact (hlt q hq).le
  | inr hq => rw [List.mem_singleton.mp hq]

theorem newest?_eq_none {t : Table} : t.newest? = none ↔ t.rows = [] :=
  List.getLast?_eq_none_iff

/-- No two rows share a second when `created_at` increases with every insert. -/
def Spaced (t : Table) : Prop := t.rows.Pairwise fun (a b : CommandRow) => a.createdAt < b.createdAt

theorem selects_of_spaced {t : Table} (h : t.Spaced) {query : Option CommandRow}
    (hquery : t.Selects query) : query = t.newest? := by
  cases hnew : t.newest? with
  | none =>
    have hrows : t.rows = [] := newest?_eq_none.mp hnew
    cases query with
    | none => rfl
    | some q =>
      have hmem : q ∈ t.rows := hquery.1
      simp [hrows] at hmem
  | some r =>
    obtain ⟨earlier, hrows, _, _⟩ := newest?_split hnew
    unfold Spaced at h
    unfold Selects at hquery
    rw [hrows] at h hquery
    have hlt : ∀ q ∈ earlier, q.createdAt < r.createdAt :=
      fun q hq => (List.pairwise_append.mp h).2.2 q hq r List.mem_cons_self
    exact firstDesc_snoc_of_lt hlt hquery

def HasCommand (t : Table) (id : ℕ) (command : String) : Prop :=
  ∃ r ∈ t.rows, r.id = id ∧ r.command = command

theorem HasCommand.issued {t : Table} {id : ℕ} {command : String} (h : t.HasCommand id command) :
    id ≤ t.sequence := by
  obtain ⟨r, hr, hid, _⟩ := h
  rw [← hid]
  exact t.ids_issued r hr

theorem mem_insert {t u : Table} {command : String} {done now : ℕ}
    (h : t.insert command done now = some u) {r : CommandRow} :
    r ∈ u.rows ↔ r ∈ t.rows ∨ r = t.nextRow command done now := by
  rw [insert_eq_some h, List.mem_append, List.mem_singleton]

theorem hasCommand_insert {t u : Table} {text : String} {done now : ℕ}
    (h : t.insert text done now = some u) {id : ℕ} {command : String}
    (hc : t.HasCommand id command) : u.HasCommand id command := by
  obtain ⟨r, hr, hrest⟩ := hc
  exact ⟨r, (mem_insert h).mpr (.inl hr), hrest⟩

theorem spaced_insert {t u : Table} {command : String} {done now : ℕ}
    (h : t.insert command done now = some u) (ht : t.Spaced)
    (hlater : ∀ r ∈ t.rows, r.createdAt < now) : u.Spaced := by
  unfold Spaced
  rw [insert_eq_some h]
  refine List.pairwise_append.mpr ⟨ht, List.pairwise_singleton _ _, ?_⟩
  intro p hp q hq
  rw [List.mem_singleton.mp hq]
  exact hlater p hp

theorem mem_markDone {t : Table} {id : ℕ} {r : CommandRow} (h : r ∈ (t.markDone id).rows) :
    ∃ q ∈ t.rows, r.id = q.id ∧ r.command = q.command ∧
      (q.id = id → r.done = 1) ∧ (q.id ≠ id → r = q) := by
  rw [markDone_rows] at h
  obtain ⟨q, hq, hqr⟩ := List.mem_map.mp h
  refine ⟨q, hq, ?_⟩
  rw [← hqr]
  by_cases hid : q.id = id <;> simp [hid]

theorem hasCommand_markDone {t : Table} {n id : ℕ} {command : String}
    (hc : t.HasCommand id command) : (t.markDone n).HasCommand id command := by
  obtain ⟨r, hr, hid, hcommand⟩ := hc
  refine ⟨_, List.mem_map_of_mem hr, ?_⟩
  split <;> exact ⟨hid, hcommand⟩

theorem spaced_markDone {t : Table} {id : ℕ} (ht : t.Spaced) : (t.markDone id).Spaced := by
  refine List.pairwise_map.mpr (ht.imp fun {p q} hpq => ?_)
  split <;> split <;> exact hpq

end Table

end Cherum.CommandTable
