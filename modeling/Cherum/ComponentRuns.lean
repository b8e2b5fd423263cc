import Cherum.ActionRuns

/-! A part of a larger system. Each label of the system stands for a list of
labels of the part, none where the part does not move, and a step of the system
runs the part along that list. A run of the system is then a run of the part,
so that what is known of the part alone holds of it inside the system. -/

namespace Cherum.ComponentRuns
open ActionRuns

/-- How a part moves with the steps of the system. -/
structure Component {σ α τ β : Type*} (step : σ → α → Option σ) (part : τ → β → Option τ) where
  state : σ → τ
  labels : α → List β
  moves : ∀ s a t, step s a = some t → run part (state s) (labels a) = some (state t)

variable {σ α τ β : Type*} {step : σ → α → Option σ} {part : τ → β → Option τ}

namespace Component

def trace (c : Component step part) (acts : List α) : List β := acts.flatMap c.labels

theorem run_trace (c : Component step part) {s t : σ} {acts : List α}
    (h : run step s acts = some t) : run part (c.state s) (c.trace acts) = some (c.state t) := by
  induction acts generalizing s with
  | nil =>
    rw [run_nil, Option.some.injEq] at h
    rw [h]
    rfl
  | cons a rest ih =>
    obtain ⟨u, hu, hrest⟩ := Option.bind_eq_some_iff.mp h
    rw [trace, List.flatMap_cons, run_append, c.moves s a u hu, Option.bind_some]
    exact ih hrest

end Component

end Cherum.ComponentRuns
