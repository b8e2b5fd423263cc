import Mathlib

/-! The answers a query may give that orders rows by descending key and keeps
one: any row of greatest key. Where several rows share that key the choice is
open; an engine that scans in storage order takes the earliest of them. -/

namespace Cherum.FirstByKey

variable {ρ κ : Type*} [LinearOrder κ] (key : ρ → κ)

def FirstDesc (rows : List ρ) : Option ρ → Prop
  | none => rows = []
  | some r => r ∈ rows ∧ ∀ q ∈ rows, key q ≤ key r

instance [DecidableEq ρ] (rows : List ρ) (pick : Option ρ) :
    Decidable (FirstDesc key rows pick) :=
  match pick with
  | none => inferInstanceAs (Decidable (rows = []))
  | some r => inferInstanceAs (Decidable (r ∈ rows ∧ ∀ q ∈ rows, key q ≤ key r))

variable {key}

theorem firstDesc_snoc_of_lt {rows : List ρ} {r : ρ} (h : ∀ q ∈ rows, key q < key r)
    {pick : Option ρ} (hpick : FirstDesc key (rows ++ [r]) pick) : pick = some r := by
  cases pick with
  | none => simp [FirstDesc] at hpick
  | some p =>
    cases List.mem_append.mp hpick.1 with
    | inl hp =>
      have hle : key r ≤ key p := hpick.2 r (List.mem_append_right _ List.mem_cons_self)
      exact absurd hle (not_le.mpr (h p hp))
    | inr hp => rw [List.mem_singleton.mp hp]

/-- The last row is the only answer exactly when no earlier row reaches its key. -/
theorem firstDesc_snoc_iff {rows : List ρ} {r : ρ} (hnew : r ∉ rows) :
    (∀ pick, FirstDesc key (rows ++ [r]) pick → pick = some r) ↔ ∀ q ∈ rows, key q < key r := by
  refine ⟨fun h q hq => ?_, fun h pick => firstDesc_snoc_of_lt h⟩
  by_contra hge
  obtain ⟨m, hm⟩ := Option.ne_none_iff_exists'.mp
    (mt List.argmax_eq_none.mp (List.ne_nil_of_mem hq) : rows.argmax key ≠ none)
  have hmax : ∀ p ∈ rows, key p ≤ key m := fun p hp => List.le_of_mem_argmax hp hm
  have hrm : key r ≤ key m := (not_lt.mp hge).trans (hmax q hq)
  have hfirst : FirstDesc key (rows ++ [r]) (some m) := by
    refine ⟨List.mem_append_left _ (List.argmax_mem hm), fun p hp => ?_⟩
    cases List.mem_append.mp hp with
    | inl hp => exact hmax p hp
    | inr hp =>
      rw [List.mem_singleton.mp hp]
      exact hrm
  have hmr : m = r := Option.some.inj (h (some m) hfirst)
  exact hnew (hmr ▸ List.argmax_mem hm)

end Cherum.FirstByKey
