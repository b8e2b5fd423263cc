import Cherum.SortKernels

/-! The passes of net.js that sort the scores of the 8400 predictions: one writes them,
padded, from `buf_341` to `buf_343`, and 117 go to and fro between `buf_343` and
`buf_346`, where they leave the scores in falling order. -/

namespace Cherum.SortedScores
open BitonicSorting ComputePasses SortKernels
open Kernel (Holds Runs)

section Passes

variable {F : Type*} [F32 F]

/-- The kernels of the pipelines 101 to 217; each pass reads what the last one wrote. -/
def passes : List (Kernel (Buffer F) F) :=
  [e_256_32_2,
    e_64_32_2_2_2, e_128_32_2_2, e_256_32_2,
    e_32_32_4_2_2, e_64_32_4_2, e_128_32_2_2, e_256_32_2,
    e_32_16_8_2_2, e_64_16_8_2, e_64_32_4_2, e_128_32_2_2, e_256_32_2,
    e_32_8_16_2_2, e_64_8_16_2, e_64_16_8_2, e_64_32_4_2, e_128_32_2_2, e_256_32_2,
    e_16_2_8_16_2_2, e_32_2_8_16_2, e_64_8_16_2, e_64_16_8_2, e_64_32_4_2, e_128_32_2_2,
      e_256_32_2,
    e_8_4_8_16_2_2, e_16_4_8_16_2, e_32_2_8_16_2, e_64_8_16_2, e_64_16_8_2, e_64_32_4_2,
      e_128_32_2_2, e_256_32_2,
    e_4_8_8_16_2_2, e_8_8_8_16_2, e_16_4_8_16_2, e_32_2_8_16_2, e_64_8_16_2, e_64_16_8_2,
      e_64_32_4_2, e_128_32_2_2, e_256_32_2,
    e_2_16_8_16_2_2, e_4_16_8_16_2, e_8_8_8_16_2, e_16_4_8_16_2, e_32_2_8_16_2, e_64_8_16_2,
      e_64_16_8_2, e_64_32_4_2, e_128_32_2_2, e_256_32_2,
    e_32_8_16_2_2n1, e_2_32_8_16_2, e_4_16_8_16_2, e_8_8_8_16_2, e_16_4_8_16_2, e_32_2_8_16_2,
      e_64_8_16_2, e_64_16_8_2, e_64_32_4_2, e_128_32_2_2, e_256_32_2,
    e_64_4_16_2_2, e_64_8_16_2n1, e_2_32_8_16_2, e_4_16_8_16_2, e_8_8_8_16_2, e_16_4_8_16_2,
      e_32_2_8_16_2, e_64_8_16_2, e_64_16_8_2, e_64_32_4_2, e_128_32_2_2, e_256_32_2,
    e_128_2_16_2_2, e_128_4_16_2, e_64_8_16_2n1, e_2_32_8_16_2, e_4_16_8_16_2, e_8_8_8_16_2,
      e_16_4_8_16_2, e_32_2_8_16_2, e_64_8_16_2, e_64_16_8_2, e_64_32_4_2, e_128_32_2_2,
      e_256_32_2,
    e_128_32_2_2n1, e_256_2_16_2, e_128_4_16_2, e_64_8_16_2n1, e_2_32_8_16_2, e_4_16_8_16_2,
      e_8_8_8_16_2, e_16_4_8_16_2, e_32_2_8_16_2, e_64_8_16_2, e_64_16_8_2, e_64_32_4_2,
      e_128_32_2_2, e_256_32_2,
    e_256_32_2n1, e_256_2_16_2, e_128_4_16_2, e_64_8_16_2n1, e_2_32_8_16_2, e_4_16_8_16_2,
      e_8_8_8_16_2, e_16_4_8_16_2, e_32_2_8_16_2, e_64_8_16_2, e_64_16_8_2, e_64_32_4_2,
      e_128_32_2_2, e_256_32_2]

def exchanger : ℕ → Kernel (Buffer F) F
  | 0 => e_256_32_2
  | 1 => e_128_32_2_2
  | 2 => e_64_32_4_2
  | 3 => e_64_16_8_2
  | 4 => e_64_8_16_2
  | 5 => e_32_2_8_16_2
  | 6 => e_16_4_8_16_2
  | 7 => e_8_8_8_16_2
  | 8 => e_4_16_8_16_2
  | 9 => e_2_32_8_16_2
  | 10 => e_64_8_16_2n1
  | 11 => e_128_4_16_2
  | _ => e_256_2_16_2

/-- The kernel between the merges of blocks of 2^s and of 2^(s+1). -/
def turner : ℕ → Kernel (Buffer F) F
  | 1 => e_64_32_2_2_2
  | 2 => e_32_32_4_2_2
  | 3 => e_32_16_8_2_2
  | 4 => e_32_8_16_2_2
  | 5 => e_16_2_8_16_2_2
  | 6 => e_8_4_8_16_2_2
  | 7 => e_4_8_8_16_2_2
  | 8 => e_2_16_8_16_2_2
  | 9 => e_32_8_16_2_2n1
  | 10 => e_64_4_16_2_2
  | 11 => e_128_2_16_2_2
  | _ => e_128_32_2_2n1

def merger : ℕ → List (Kernel (Buffer F) F)
  | 0 => []
  | k + 1 => exchanger k :: merger k

def stager : ℕ → List (Kernel (Buffer F) F)
  | 0 => merger 1
  | s + 1 => stager s ++ turner (s + 1) :: merger (s + 2)

theorem passes_eq :
    (passes : List (Kernel (Buffer F) F)) = stager 12 ++ e_256_32_2n1 :: merger 13 := rfl

theorem exchanger_implements {k : ℕ} (hk : k < 13) :
    (exchanger k : Kernel (Buffer F) F).Implements 16384 (exchange k) := by
  interval_cases k
  · exact e_256_32_2_implements
  · exact e_128_32_2_2_implements
  · exact e_64_32_4_2_implements
  · exact e_64_16_8_2_implements
  · exact e_64_8_16_2_implements
  · exact e_32_2_8_16_2_implements
  · exact e_16_4_8_16_2_implements
  · exact e_8_8_8_16_2_implements
  · exact e_4_16_8_16_2_implements
  · exact e_2_32_8_16_2_implements
  · exact e_64_8_16_2n1_implements
  · exact e_128_4_16_2_implements
  · exact e_256_2_16_2_implements

omit [F32 F] in
theorem turner_implements {s : ℕ} (hpos : 0 < s) (hs : s < 13) :
    (turner s : Kernel (Buffer F) F).Implements 16384 (turn s) := by
  interval_cases s
  · exact e_64_32_2_2_2_implements
  · exact e_32_32_4_2_2_implements
  · exact e_32_16_8_2_2_implements
  · exact e_32_8_16_2_2_implements
  · exact e_16_2_8_16_2_2_implements
  · exact e_8_4_8_16_2_2_implements
  · exact e_4_8_8_16_2_2_implements
  · exact e_2_16_8_16_2_2_implements
  · exact e_32_8_16_2_2n1_implements
  · exact e_64_4_16_2_2_implements
  · exact e_128_2_16_2_2_implements
  · exact e_128_32_2_2n1_implements

variable {p q : Buffer F × Buffer F} {x : ℕ → F}

theorem merger_holds {s : ℕ} (hs : s ≤ 13) (hx : Holds 16384 p x) (hruns : Runs (merger s) p q) :
    Holds 16384 q (merge s x) := by
  induction s generalizing p x with
  | zero => exact hruns ▸ hx
  | succ k ih =>
    obtain ⟨b, hb, hrest⟩ := hruns
    exact ih (Nat.le_of_succ_le hs) ((exchanger_implements hs).holds hx hb) hrest

theorem stager_holds {s : ℕ} (hs : s ≤ 12) (hx : Holds 16384 p (flipOdd 1 x))
    (hruns : Runs (stager s) p q) :
    Holds 16384 q (merge (s + 1) (flipOdd (s + 1) (stages s x))) := by
  induction s generalizing q with
  | zero => exact merger_holds (by decide) hx hruns
  | succ s ih =>
    obtain ⟨m, hm, b, hb, hrest⟩ := Kernel.runs_append.mp hruns
    have hturned := (turner_implements s.succ_pos (Nat.lt_succ_of_le hs)).holds
      (ih (Nat.le_of_succ_le hs) hm) hb
    exact merger_holds (Nat.succ_le_succ hs) hturned hrest

theorem passes_holds (hx : Holds 16384 p (flipOdd 1 x)) (hruns : Runs passes p q) :
    Holds 16384 q (network 14 x) := by
  rw [passes_eq] at hruns
  obtain ⟨m, hm, b, hb, hrest⟩ := Kernel.runs_append.mp hruns
  have hturned := e_256_32_2n1_implements.holds (stager_holds le_rfl hx hm) hb
  exact merger_holds (x := exchange 13 (stages 13 x)) le_rfl hturned hrest

theorem mem_merger {k : Kernel (Buffer F) F} {s : ℕ} (hs : s ≤ 13) (hk : k ∈ merger s) :
    ∃ T, k.Implements 16384 T := by
  induction s with
  | zero => cases hk
  | succ s ih =>
    cases List.mem_cons.mp hk with
    | inl hexchanger => exact ⟨_, hexchanger ▸ exchanger_implements hs⟩
    | inr hmerger => exact ih (Nat.le_of_succ_le hs) hmerger

theorem mem_stager {k : Kernel (Buffer F) F} {s : ℕ} (hs : s ≤ 12) (hk : k ∈ stager s) :
    ∃ T, k.Implements 16384 T := by
  induction s with
  | zero => exact mem_merger (by decide) hk
  | succ s ih =>
    cases List.mem_append.mp hk with
    | inl hstager => exact ih (Nat.le_of_succ_le hs) hstager
    | inr hrest =>
      cases List.mem_cons.mp hrest with
      | inl hturner => exact ⟨_, hturner ▸ turner_implements s.succ_pos (Nat.lt_succ_of_le hs)⟩
      | inr hmerger => exact mem_merger (Nat.succ_le_succ hs) hmerger

theorem mem_passes {k : Kernel (Buffer F) F} (hk : k ∈ passes) : ∃ T, k.Implements 16384 T := by
  rw [passes_eq] at hk
  cases List.mem_append.mp hk with
  | inl hstager => exact mem_stager le_rfl hstager
  | inr hrest =>
    cases List.mem_cons.mp hrest with
    | inl hlast => exact ⟨_, hlast ▸ e_256_32_2n1_implements⟩
    | inr hmerger => exact mem_merger le_rfl hmerger

theorem passes_writtenOnce {k : Kernel (Buffer F) F} (hk : k ∈ passes) (data : Buffer F) :
    ((k.writes data).map Prod.fst).Perm (upto 16384) := by
  obtain ⟨T, hT⟩ := mem_passes hk
  exact (hT data (fun m => data m) fun _ _ => rfl).writtenOnce

/-- The 8400 scores that `buf_341` holds and 7984 times `-INFINITY`, in falling order,
are in `buf_346` after the passes, whatever the buffers held before them and in whatever
order the invocations of a pass write; each pass writes each place once. -/
theorem scores_sorted {buf_341 buf_343 padding buf_346 : Buffer F} {sorted : Buffer F × Buffer F}
    (hpad : e_2_2_2_2_2_2_2_2_2_2_2_2_2_2.Outcome buf_341 buf_343 padding)
    (hruns : Runs passes (padding, buf_346) sorted) :
    (∃ falling : ℕ → F, (∀ m : ℕ, m < 16384 → sorted.1 m = falling m) ∧
      AntitoneOn falling (Set.Iio 16384) ∧
      Rearranged 16384 (padded fun m => buf_341 m) falling) ∧
    ∀ k ∈ (passes : List (Kernel (Buffer F) F)), ∀ data,
      ((k.writes data).map Prod.fst).Perm (upto 16384) := by
  have hpadded : Holds 16384 (padding, buf_346) (flipOdd 1 (padded fun m => buf_341 m)) := by
    intro m hm
    have hout := (e_2_2_2_2_2_2_2_2_2_2_2_2_2_2_computes buf_341 (fun m => buf_341 m)
      fun _ _ => rfl).outcome hpad (Int.natCast_nonneg m) (Int.ofNat_lt.mpr hm)
    rwa [Int.toNat_natCast] at hout
  exact ⟨⟨network 14 _, passes_holds hpadded hruns, network_falls 14 _, rearranged_network 14 _⟩,
    fun k hk data => passes_writtenOnce hk data⟩

end Passes

/-- Scores that rise with the index of their prediction. -/
noncomputable def rising : Buffer EReal := fun a => ((a : ℝ) : EReal)

theorem rising_sorted : ∃ padding sorted,
    e_2_2_2_2_2_2_2_2_2_2_2_2_2_2.Outcome rising (fun _ => 0) padding ∧
    Runs passes (padding, fun _ => 0) sorted ∧
    ∃ falling : ℕ → EReal, (∀ m : ℕ, m < 16384 → sorted.1 m = falling m) ∧
      AntitoneOn falling (Set.Iio 16384) ∧
      Rearranged 16384 (padded fun m => rising m) falling := by
  obtain ⟨padding, hpad⟩ :=
    Kernel.exists_outcome e_2_2_2_2_2_2_2_2_2_2_2_2_2_2 rising fun _ => (0 : EReal)
  obtain ⟨sorted, hruns⟩ := Kernel.exists_runs passes (padding, fun _ => (0 : EReal))
  exact ⟨padding, sorted, hpad, hruns, (scores_sorted hpad hruns).1⟩

end Cherum.SortedScores
