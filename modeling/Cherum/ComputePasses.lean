import Mathlib.Data.List.Range
import Mathlib.Data.List.Perm.Basic
import Mathlib.Data.Finset.Card
import Mathlib.Data.Int.Interval
import Mathlib.Tactic.Ring

/-! Compute passes of a graphics device. The invocations of a kernel read some buffers
and write one other, in no particular order; the numbers are the identifiers of the
invocation. A buffer is its values by index, and unspecified outside of its size. -/

namespace Cherum.ComputePasses

abbrev Buffer (α : Type*) := ℤ → α

structure Ids where
  gidx0 : ℤ
  gidx1 : ℤ
  gidx2 : ℤ
  lidx0 : ℤ
  lidx1 : ℤ
  lidx2 : ℤ

/-- How many workgroups are dispatched, and the size of one. -/
structure Grid where
  workgroups : ℕ × ℕ × ℕ
  size : ℕ × ℕ × ℕ

def upto (n : ℕ) : List ℤ := (List.range n).map Int.ofNat

namespace Grid

def invocations (g : Grid) : List Ids :=
  (upto g.workgroups.1).flatMap fun gidx0 => (upto g.workgroups.2.1).flatMap fun gidx1 =>
    (upto g.workgroups.2.2).flatMap fun gidx2 => (upto g.size.1).flatMap fun lidx0 =>
      (upto g.size.2.1).flatMap fun lidx1 => (upto g.size.2.2).map fun lidx2 =>
        ⟨gidx0, gidx1, gidx2, lidx0, lidx1, lidx2⟩

structure Has (g : Grid) (i : Ids) : Prop where
  gidx0 : 0 ≤ i.gidx0 ∧ i.gidx0 < g.workgroups.1
  gidx1 : 0 ≤ i.gidx1 ∧ i.gidx1 < g.workgroups.2.1
  gidx2 : 0 ≤ i.gidx2 ∧ i.gidx2 < g.workgroups.2.2
  lidx0 : 0 ≤ i.lidx0 ∧ i.lidx0 < g.size.1
  lidx1 : 0 ≤ i.lidx1 ∧ i.lidx1 < g.size.2.1
  lidx2 : 0 ≤ i.lidx2 ∧ i.lidx2 < g.size.2.2

def count (g : Grid) : ℕ :=
  g.workgroups.1 * (g.workgroups.2.1 * (g.workgroups.2.2 * (g.size.1 * (g.size.2.1 * g.size.2.2))))

end Grid

theorem mem_upto {n : ℕ} {a : ℤ} : a ∈ upto n ↔ 0 ≤ a ∧ a < n := by
  unfold upto
  rw [List.mem_map]
  constructor
  · rintro ⟨m, hm, rfl⟩
    rw [List.mem_range] at hm
    exact ⟨Int.natCast_nonneg m, Int.ofNat_lt.mpr hm⟩
  · rintro ⟨hpos, hlt⟩
    exact ⟨a.toNat, List.mem_range.mpr (by omega), Int.toNat_of_nonneg hpos⟩

@[simp] theorem length_upto (n : ℕ) : (upto n).length = n := by simp [upto]

theorem Grid.mem_invocations {g : Grid} {i : Ids} : i ∈ g.invocations ↔ g.Has i := by
  simp only [Grid.invocations, List.mem_flatMap, List.mem_map, mem_upto]
  constructor
  · rintro ⟨_, h0, _, h1, _, h2, _, h3, _, h4, _, h5, rfl⟩
    exact ⟨h0, h1, h2, h3, h4, h5⟩
  · rintro ⟨h0, h1, h2, h3, h4, h5⟩
    exact ⟨_, h0, _, h1, _, h2, _, h3, _, h4, _, h5, rfl⟩

@[simp] theorem Grid.length_invocations (g : Grid) : g.invocations.length = g.count := by
  simp [Grid.invocations, Grid.count, List.length_flatMap]

def store {α : Type*} (b : Buffer α) (w : ℤ × α) : Buffer α := Function.update b w.1 w.2

/-- What the invocations write, each in the order of its statements, when the buffers
they read are `ρ`. -/
structure Kernel (ρ : Type*) (α : Type*) where
  grid : Grid
  main : ρ → Ids → List (ℤ × α)

namespace Kernel

variable {ρ α : Type*}

def writes (k : Kernel ρ α) (r : ρ) : List (ℤ × α) := k.grid.invocations.flatMap (k.main r)

/-- The buffer before and after a pass; the writes come in any order. -/
def Outcome (k : Kernel ρ α) (r : ρ) (b b' : Buffer α) : Prop :=
  ∃ order : List (ℤ × α), order.Perm (k.writes r) ∧ b' = order.foldl store b

/-- The invocations write each of the n places once, with the values of f. -/
structure Computes (k : Kernel ρ α) (n : ℕ) (r : ρ) (f : ℤ → α) : Prop where
  values : ∀ i, k.grid.Has i → ∀ w ∈ k.main r i, w.2 = f w.1
  covers : ∀ a : ℤ, 0 ≤ a → a < n → ∃ i, k.grid.Has i ∧ ∃ v, (a, v) ∈ k.main r i
  length : (k.writes r).length = n

variable {k : Kernel ρ α} {n : ℕ} {r : ρ} {f : ℤ → α} {b b' : Buffer α}

theorem exists_outcome (k : Kernel ρ α) (r : ρ) (b : Buffer α) : ∃ b', k.Outcome r b b' :=
  ⟨_, _, .refl _, rfl⟩

theorem foldl_store (order : List (ℤ × α)) (b : Buffer α) {a : ℤ}
    (hvalues : ∀ w ∈ order, w.2 = f w.1) (h : (∃ v, (a, v) ∈ order) ∨ b a = f a) :
    order.foldl store b a = f a := by
  induction order generalizing b with
  | nil =>
    rcases h with ⟨_, h⟩ | h
    · cases h
    · exact h
  | cons w rest ih =>
    refine ih _ (fun w hw => hvalues w (List.mem_cons_of_mem _ hw)) ?_
    have hw := hvalues w List.mem_cons_self
    by_cases ha : a = w.1
    · right
      rw [store, ha, Function.update_self, hw]
    · rcases h with ⟨v, h⟩ | h
      · left
        refine ⟨v, (List.mem_cons.mp h).resolve_left fun heq => ha ?_⟩
        rw [← heq]
      · right
        rw [store, Function.update_of_ne ha, h]

/-- Whatever the order of the writes, the pass leaves the values of f. -/
theorem Computes.outcome (h : k.Computes n r f) (ho : k.Outcome r b b') {a : ℤ} (hpos : 0 ≤ a)
    (hlt : a < n) : b' a = f a := by
  obtain ⟨order, hperm, rfl⟩ := ho
  refine foldl_store order b (fun w hw => ?_) (.inl ?_)
  · obtain ⟨i, hi, hw⟩ := List.mem_flatMap.mp (hperm.mem_iff.mp hw)
    exact h.values i (Grid.mem_invocations.mp hi) w hw
  · obtain ⟨i, hi, v, hv⟩ := h.covers a hpos hlt
    exact ⟨v, hperm.mem_iff.mpr (List.mem_flatMap.mpr ⟨i, Grid.mem_invocations.mpr hi, hv⟩)⟩

theorem Computes.writtenOnce (h : k.Computes n r f) : ((k.writes r).map Prod.fst).Perm (upto n) := by
  have hnodup : (upto n).Nodup := List.nodup_range.map Int.ofNat_injective
  have hsubset : upto n ⊆ (k.writes r).map Prod.fst := by
    intro a ha
    obtain ⟨hpos, hlt⟩ := mem_upto.mp ha
    obtain ⟨i, hi, v, hv⟩ := h.covers a hpos hlt
    exact List.mem_map_of_mem (List.mem_flatMap.mpr ⟨i, Grid.mem_invocations.mpr hi, hv⟩)
  refine ((hnodup.subperm hsubset).perm_of_length_le ?_).symm
  rw [List.length_map, h.length, length_upto]

/-- The buffers before and after passes that each write the buffer the next one reads;
the first of the two buffers is the one that is read. -/
def Runs {α : Type*} : List (Kernel (Buffer α) α) → Buffer α × Buffer α → Buffer α × Buffer α → Prop
  | [], p, q => q = p
  | k :: ks, p, q => ∃ b, k.Outcome p.1 p.2 b ∧ Runs ks (b, p.1) q

def Implements {α : Type*} (k : Kernel (Buffer α) α) (n : ℕ) (T : (ℕ → α) → ℕ → α) : Prop :=
  ∀ (data : Buffer α) (x : ℕ → α), (∀ m < n, data m = x m) → k.Computes n data fun a => T x a.toNat

theorem length_writes {c : ℕ} (h : ∀ i, (k.main r i).length = c) :
    (k.writes r).length = k.grid.count * c := by
  simp [writes, List.length_flatMap, h]

section Chain

variable {α : Type*} {ks ls : List (Kernel (Buffer α) α)} {p q : Buffer α × Buffer α}

theorem runs_append : Runs (ks ++ ls) p q ↔ ∃ m, Runs ks p m ∧ Runs ls m q := by
  induction ks generalizing p with
  | nil =>
    constructor
    · exact fun h => ⟨p, rfl, h⟩
    · rintro ⟨_, rfl, h⟩
      exact h
  | cons k ks ih =>
    simp only [List.cons_append, Runs, ih]
    constructor
    · rintro ⟨b, hb, m, hm, hq⟩
      exact ⟨m, ⟨b, hb, hm⟩, hq⟩
    · rintro ⟨m, ⟨b, hb, hm⟩, hq⟩
      exact ⟨b, hb, m, hm, hq⟩

theorem exists_runs (ks : List (Kernel (Buffer α) α)) (p : Buffer α × Buffer α) : ∃ q, Runs ks p q := by
  induction ks generalizing p with
  | nil => exact ⟨p, rfl⟩
  | cons k ks ih =>
    obtain ⟨b, hb⟩ := k.exists_outcome p.1 p.2
    obtain ⟨q, hq⟩ := ih (b, p.1)
    exact ⟨q, b, hb, hq⟩

def Holds (n : ℕ) (p : Buffer α × Buffer α) (x : ℕ → α) : Prop := ∀ m < n, p.1 m = x m

theorem Implements.holds {k : Kernel (Buffer α) α} {n : ℕ} {T : (ℕ → α) → ℕ → α} {x : ℕ → α}
    (h : k.Implements n T) (hx : Holds n p x) {b : Buffer α} (hb : k.Outcome p.1 p.2 b) :
    Holds n (b, p.1) (T x) := by
  intro m hm
  have hout := (h p.1 x hx).outcome hb (Int.natCast_nonneg m) (Int.ofNat_lt.mpr hm)
  rwa [Int.toNat_natCast] at hout

end Chain

end Kernel

end Cherum.ComputePasses
