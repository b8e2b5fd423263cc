import Cherum.ActionRuns
import Cherum.CommandServer

/-! Which command `/fetch` hands out. The answer orders by `created_at`, which
counts whole seconds, while "latest" means last inserted: the two agree exactly
as long as the newest command has its second to itself. -/

namespace Cherum.LatestCommand
open ActionRuns CommandServer CommandTable FirstByKey HttpMessages PythonJson

theorem chronological_run {acts : List (ℕ × Request)} {s : Server}
    (hrun : run step start acts = some s) : Chronological s :=
  run_invariant chronological_step chronological_start hrun

theorem fetchBody_injective {q r : CommandRow} (h : fetchBody (some q) = fetchBody (some r)) :
    q.id = r.id := by
  simp only [fetchBody, Json.obj.injEq, List.cons.injEq, Prod.mk.injEq, Json.int.injEq] at h
  omega

theorem selects_newest_iff {s : Server} (hs : Chronological s) {row : CommandRow}
    (hrow : s.db.commands.newest? = some row) :
    (∀ query, s.db.commands.Selects query → query = some row) ↔
      ∀ q ∈ s.db.commands.rows, q.createdAt = row.createdAt → q = row := by
  obtain ⟨earlier, hrows, hnew, _⟩ := Table.newest?_split hrow
  have hsorted := hs.sorted
  unfold Table.Selects
  rw [hrows] at hsorted ⊢
  rw [firstDesc_snoc_iff hnew]
  have hle : ∀ q ∈ earlier, q.createdAt ≤ row.createdAt :=
    fun q hq => (List.pairwise_append.mp hsorted).2.2 q hq row List.mem_cons_self
  refine ⟨fun h q hq heq => ?_, fun h q hq => ?_⟩
  · cases List.mem_append.mp hq with
    | inl hq => exact absurd heq (h q hq).ne
    | inr hq => exact List.mem_singleton.mp hq
  · have hne : q.createdAt ≠ row.createdAt := by
      intro heq
      have hqr : q = row := h q (List.mem_append_left _ hq) heq
      exact hnew (hqr ▸ hq)
    have hq' := hle q hq
    omega

/-- In every run, an authorised `/fetch` is certain to answer with the last
inserted command and its current flag exactly when that command is the only
one accepted in its second. -/
theorem fetch_answers_newest_iff {acts : List (ℕ × Request)} {s : Server}
    (hrun : run step start acts = some s) {row : CommandRow}
    (hrow : s.db.commands.newest? = some row) :
    (∀ query now t, step s (now, .fetch true query) = some t →
      (serve s.db now (.fetch true query)).1 = ⟨200, .json (fetchBody (some row))⟩) ↔
      ∀ q ∈ s.db.commands.rows, q.createdAt = row.createdAt → q = row := by
  have hs := chronological_run hrun
  rw [← selects_newest_iff hs hrow]
  refine ⟨fun h query hquery => ?_, fun h query now t hstep => ?_⟩
  · have hstep : step s (s.clock, .fetch true query) =
        some ⟨(serve s.db s.clock (.fetch true query)).2, s.clock⟩ :=
      if_pos ⟨le_rfl, hquery⟩
    have hanswer := h query s.clock _ hstep
    simp only [serve, fetch, if_true, Response.mk.injEq, Body.json.injEq, true_and] at hanswer
    cases query with
    | none => simp [fetchBody] at hanswer
    | some q =>
      have hid := fetchBody_injective hanswer
      rw [Table.eq_of_id hquery.1 (Table.newest?_greatest hrow).1 hid]
  · obtain ⟨_, hquery, _⟩ := step_eq_some hstep
    rw [h query hquery]
    rfl

def landLater : List (ℕ × Request) :=
  [(7, .command (some "loiter")), (9, .command (some "land"))]

def afterLandLater : Server := (run step start landLater).getD start

theorem fetch_answers_land_later :
    (serve afterLandLater.db 9 (.fetch true (some ⟨2, "land", 0, 9⟩))).1 =
      ⟨200, .json (fetchBody (some ⟨2, "land", 0, 9⟩))⟩ := by
  have hrun : run step start landLater = some afterLandLater := rfl
  have hnewest : afterLandLater.db.commands.newest? = some ⟨2, "land", 0, 9⟩ := rfl
  have hanswer := (fetch_answers_newest_iff hrun hnewest).mpr (by decide)
  exact hanswer (some ⟨2, "land", 0, 9⟩) 9 ⟨(serve afterLandLater.db 9 _).2, 9⟩ rfl

/-- "loiter" is fetched and acknowledged, and "land" follows within the second. -/
def landInSameSecond : List (ℕ × Request) :=
  [(7, .command (some "loiter")), (7, .fetch true (some ⟨1, "loiter", 0, 7⟩)),
    (7, .done true 1), (7, .command (some "land"))]

/-- Land is the newest command and is pending; the answer is still the older
one, already done, which is also the one of lowest rowid. -/
theorem fetch_hides_land_in_same_second :
    ∃ s t, run step start landInSameSecond = some s ∧
      s.db.commands.newest? = some ⟨2, "land", 0, 7⟩ ∧
      s.db.commands.rows.argmax CommandRow.createdAt = some ⟨1, "loiter", 1, 7⟩ ∧
      step s (7, .fetch true (some ⟨1, "loiter", 1, 7⟩)) = some t ∧
      (serve s.db 7 (.fetch true (some ⟨1, "loiter", 1, 7⟩))).1 ≠
        ⟨200, .json (fetchBody (some ⟨2, "land", 0, 7⟩))⟩ := by
  refine ⟨_, _, rfl, rfl, rfl, rfl, ?_⟩
  simp [serve, fetch, fetchBody]

end Cherum.LatestCommand
