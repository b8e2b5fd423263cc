import Mathlib.Order.PropInstances
import Mathlib.Order.Interval.Set.Basic
import Mathlib.Logic.Equiv.Basic
import Mathlib.Tactic.IntervalCases
import Mathlib.Tactic.Ring

/-! Bitonic sorting of 2^n values, the largest first, with every comparison in the same
direction: each second block is turned round for its merge and back after it. Which
places hold at least a given value is a sequence of truth values that the network
treats like any other, so it is enough to sort truth values. -/

namespace Cherum.BitonicSorting

section Places

variable {i k n s : ℕ}

theorem upper_bit (h : i / 2 ^ k % 2 = 0) : (i + 2 ^ k) / 2 ^ k % 2 = 1 := by
  rw [Nat.add_div_right _ (Nat.two_pow_pos k)]
  omega

theorem le_of_bit (h : ¬ i / 2 ^ k % 2 = 0) : 2 ^ k ≤ i := by
  by_contra hlt
  rw [Nat.div_eq_of_lt (not_le.mp hlt)] at h
  omega

theorem lower_bit (h : ¬ i / 2 ^ k % 2 = 0) : (i - 2 ^ k) / 2 ^ k % 2 = 0 := by
  obtain ⟨j, rfl⟩ := Nat.exists_eq_add_of_le' (le_of_bit h)
  rw [Nat.add_div_right _ (Nat.two_pow_pos k)] at h
  rw [Nat.add_sub_cancel]
  omega

theorem upper_lt (hn : 2 ^ (k + 1) ∣ n) (hi : i < n) (h : i / 2 ^ k % 2 = 0) :
    i + 2 ^ k < n := by
  obtain ⟨m, rfl⟩ := hn
  have hpos := Nat.two_pow_pos k
  have hsize : 2 ^ (k + 1) * m = 2 * m * 2 ^ k := by ring
  rw [hsize, ← Nat.div_lt_iff_lt_mul hpos] at hi ⊢
  rw [Nat.add_div_right _ hpos]
  omega

/-- The place opposite in its block of 2^s. -/
def mirror (s i : ℕ) : ℕ := 2 ^ s * (i / 2 ^ s) + (2 ^ s - 1 - i % 2 ^ s)

theorem mirror_block (b : ℕ) (hi : i < 2 ^ s) :
    mirror s (2 ^ s * b + i) = 2 ^ s * b + (2 ^ s - 1 - i) := by
  rw [mirror, Nat.mul_add_div (Nat.two_pow_pos s), Nat.mul_add_mod, Nat.div_eq_of_lt hi,
    Nat.mod_eq_of_lt hi, Nat.add_zero]

theorem mirror_div (s i : ℕ) : mirror s i / 2 ^ s = i / 2 ^ s := by
  have hpos := Nat.two_pow_pos s
  have hlt : 2 ^ s - 1 - i % 2 ^ s < 2 ^ s := by omega
  rw [mirror, Nat.mul_add_div hpos, Nat.div_eq_of_lt hlt, Nat.add_zero]

@[simp] theorem mirror_mirror (s i : ℕ) : mirror s (mirror s i) = i := by
  have hmod := Nat.mod_lt i (Nat.two_pow_pos s)
  have hdiv := Nat.div_add_mod i (2 ^ s)
  rw [mirror, mirror_div]
  unfold mirror
  rw [Nat.mul_add_mod, Nat.mod_eq_of_lt (by omega)]
  omega

theorem mirror_lt (hn : 2 ^ s ∣ n) : mirror s i < n ↔ i < n := by
  obtain ⟨m, rfl⟩ := hn
  have hpos := Nat.two_pow_pos s
  rw [Nat.mul_comm, ← Nat.div_lt_iff_lt_mul hpos, mirror_div, Nat.div_lt_iff_lt_mul hpos]

end Places

/-- Every second block of 2^s turned round. -/
def flipOdd {α : Type*} (s : ℕ) (x : ℕ → α) (i : ℕ) : α :=
  if i / 2 ^ s % 2 = 0 then x i else x (mirror s i)

section Network

variable {α : Type*} [Lattice α]

def exchange (k : ℕ) (x : ℕ → α) (i : ℕ) : α :=
  if i / 2 ^ k % 2 = 0 then x i ⊔ x (i + 2 ^ k) else x (i - 2 ^ k) ⊓ x i

def merge : ℕ → (ℕ → α) → ℕ → α
  | 0, x => x
  | k + 1, x => merge k (exchange k x)

def stage (s : ℕ) (x : ℕ → α) : ℕ → α := flipOdd s (merge s (flipOdd s x))

def stages : ℕ → (ℕ → α) → ℕ → α
  | 0, x => x
  | s + 1, x => stage (s + 1) (stages s x)

/-- The last stage has one block, which needs no turning round. -/
def network : ℕ → (ℕ → α) → ℕ → α
  | 0, x => x
  | n + 1, x => merge (n + 1) (stages n x)

theorem exchange_shift {c k : ℕ} (hc : 2 ^ (k + 1) ∣ c) (x : ℕ → α) (i : ℕ) :
    exchange k x (c + i) = exchange k (fun i => x (c + i)) i := by
  obtain ⟨m, rfl⟩ := hc
  have hsize : 2 ^ (k + 1) * m = 2 ^ k * (2 * m) := by ring
  have hbit : (2 ^ (k + 1) * m + i) / 2 ^ k % 2 = i / 2 ^ k % 2 := by
    rw [hsize, Nat.mul_add_div (Nat.two_pow_pos k)]
    omega
  unfold exchange
  rw [hbit]
  split_ifs with h
  · rw [Nat.add_assoc]
  · rw [Nat.add_sub_assoc (le_of_bit h)]

theorem merge_shift {c s : ℕ} (hc : 2 ^ s ∣ c) (x : ℕ → α) (i : ℕ) :
    merge s x (c + i) = merge s (fun i => x (c + i)) i := by
  induction s generalizing x with
  | zero => rfl
  | succ s ih =>
    rw [merge, merge, ih ((pow_dvd_pow 2 s.le_succ).trans hc)]
    congr 1
    funext j
    exact exchange_shift hc x j

theorem merge_all {P : α → Prop} (hsup : ∀ a b, P a → P b → P (a ⊔ b))
    (hinf : ∀ a b, P a → P b → P (a ⊓ b)) {n s : ℕ} (hn : 2 ^ s ∣ n) {x : ℕ → α}
    (hx : ∀ i < n, P (x i)) : ∀ i < n, P (merge s x i) := by
  induction s generalizing x with
  | zero => exact hx
  | succ s ih =>
    refine ih ((pow_dvd_pow 2 s.le_succ).trans hn) fun i hi => ?_
    unfold exchange
    split_ifs with h
    · exact hsup _ _ (hx i hi) (hx _ (upper_lt hn hi h))
    · exact hinf _ _ (hx _ (lt_of_le_of_lt (Nat.sub_le i _) hi)) (hx i hi)

end Network

/-! Truth values. -/

/-- True between two places and nowhere else of the first n, or false there only. -/
def Bitonic (n : ℕ) (p : ℕ → Prop) : Prop :=
  ∃ lo hi, (∀ i < n, p i ↔ lo ≤ i ∧ i < hi) ∨ ∀ i < n, p i ↔ i < lo ∨ hi ≤ i

def BitonicBlocks (s : ℕ) (p : ℕ → Prop) : Prop :=
  ∀ b, Bitonic (2 ^ s) fun i => p (2 ^ s * b + i)

section Truth

variable {n s : ℕ} {p q : ℕ → Prop}

theorem Bitonic.congr (h : ∀ i < n, p i ↔ q i) (hq : Bitonic n q) : Bitonic n p := by
  obtain ⟨lo, hi, hq | hq⟩ := hq
  · exact ⟨lo, hi, .inl fun i hi => (h i hi).trans (hq i hi)⟩
  · exact ⟨lo, hi, .inr fun i hi => (h i hi).trans (hq i hi)⟩

theorem Bitonic.not (h : Bitonic n p) : Bitonic n fun i => ¬ p i := by
  obtain ⟨lo, up, h | h⟩ := h
  · refine ⟨lo, up, .inr fun i hi => ?_⟩
    simp only [h i hi]
    omega
  · refine ⟨lo, up, .inl fun i hi => ?_⟩
    simp only [h i hi]
    omega

theorem Bitonic.mirror (h : Bitonic n p) : Bitonic n fun i => p (n - 1 - i) := by
  obtain ⟨lo, up, h | h⟩ := h
  · refine ⟨n - up, n - lo, .inl fun i hi => ?_⟩
    have hlt : n - 1 - i < n := by omega
    simp only [h _ hlt]
    omega
  · refine ⟨n - up, n - lo, .inr fun i hi => ?_⟩
    have hlt : n - 1 - i < n := by omega
    simp only [h _ hlt]
    omega

/-- Of the halves of a sequence that is true in one stretch, compared place by place,
one is constant and the other again bitonic. -/
theorem halves_of_stretch {lo up : ℕ} (h : ∀ i < 2 * n, p i ↔ lo ≤ i ∧ i < up) :
    (∀ i < n, p i ∨ p (i + n)) ∧ Bitonic n (fun i => p i ∧ p (i + n)) ∨
      (∀ i < n, ¬ (p i ∧ p (i + n))) ∧ Bitonic n fun i => p i ∨ p (i + n) := by
  have hlow : ∀ i < n, p i ↔ lo ≤ i ∧ i < up := fun i hi => h i (by omega)
  have hhigh : ∀ i < n, p (i + n) ↔ lo ≤ i + n ∧ i + n < up := fun i hi => h _ (by omega)
  by_cases hfirst : up ≤ n
  · refine .inr ⟨fun i hi => ?_, lo, up, .inl fun i hi => ?_⟩ <;>
      simp only [hlow i hi, hhigh i hi] <;> omega
  by_cases hsecond : n ≤ lo
  · refine .inr ⟨fun i hi => ?_, lo - n, up - n, .inl fun i hi => ?_⟩ <;>
      simp only [hlow i hi, hhigh i hi] <;> omega
  by_cases hapart : up - n ≤ lo
  · refine .inr ⟨fun i hi => ?_, up - n, lo, .inr fun i hi => ?_⟩ <;>
      simp only [hlow i hi, hhigh i hi] <;> omega
  · refine .inl ⟨fun i hi => ?_, lo, up - n, .inl fun i hi => ?_⟩ <;>
      simp only [hlow i hi, hhigh i hi] <;> omega

theorem Bitonic.halves (h : Bitonic (2 * n) p) :
    (∀ i < n, p i ∨ p (i + n)) ∧ Bitonic n (fun i => p i ∧ p (i + n)) ∨
      (∀ i < n, ¬ (p i ∧ p (i + n))) ∧ Bitonic n fun i => p i ∨ p (i + n) := by
  obtain ⟨lo, up, hstretch | hstretch⟩ := h
  · exact halves_of_stretch hstretch
  · -- false in one stretch: the halves of the negation
    have hnot : ∀ i < 2 * n, (¬ p i) ↔ lo ≤ i ∧ i < up := by
      intro i hi
      rw [hstretch i hi]
      omega
    obtain ⟨hall, hb⟩ | ⟨hnone, hb⟩ := halves_of_stretch hnot
    · refine .inr ⟨fun i hi => ?_, hb.not.congr fun i _ => ?_⟩
      · have := hall i hi
        tauto
      · tauto
    · refine .inl ⟨fun i hi => ?_, hb.not.congr fun i _ => ?_⟩
      · have := hnone i hi
        tauto
      · tauto

theorem merge_bitonic (h : Bitonic (2 ^ s) p) : AntitoneOn (merge s p) (Set.Iio (2 ^ s)) := by
  induction s generalizing p with
  | zero =>
    intro i hi j hj _
    rw [Set.mem_Iio] at hi hj
    have hij : i = j := by omega
    rw [hij]
  | succ s ih =>
    have hsize : 2 ^ (s + 1) = 2 * 2 ^ s := by ring
    have hlow : ∀ i < 2 ^ s, exchange s p i ↔ p i ∨ p (i + 2 ^ s) := by
      intro i hi
      rw [exchange, Nat.div_eq_of_lt hi, if_pos rfl]
      rfl
    have hhigh : ∀ i < 2 ^ s, exchange s p (2 ^ s + i) ↔ p i ∧ p (i + 2 ^ s) := by
      intro i hi
      rw [exchange, Nat.add_div_left _ (Nat.two_pow_pos s), Nat.div_eq_of_lt hi,
        if_neg (by decide), Nat.add_sub_cancel_left, Nat.add_comm]
      rfl
    have hupper : ∀ i, merge (s + 1) p (2 ^ s + i) =
        merge s (fun i => exchange s p (2 ^ s + i)) i := merge_shift dvd_rfl _
    rw [hsize] at h
    intro i hi j hj hij
    rw [Set.mem_Iio, hsize] at hi hj
    obtain ⟨hall, hb⟩ | ⟨hnone, hb⟩ := h.halves
    · -- the first half is all true
      by_cases hfirst : i < 2 ^ s
      · have htrue : ∀ i < 2 ^ s, merge s (exchange s p) i :=
          merge_all (P := fun a => a) (fun _ _ ha _ => Or.inl ha) (fun _ _ ha hb => And.intro ha hb)
            dvd_rfl fun i hi => (hlow i hi).mpr (hall i hi)
        exact fun _ => htrue i hfirst
      · obtain ⟨i, rfl⟩ := Nat.exists_eq_add_of_le (not_lt.mp hfirst)
        obtain ⟨j, rfl⟩ := Nat.exists_eq_add_of_le ((not_lt.mp hfirst).trans hij)
        rw [hupper, hupper]
        exact ih (hb.congr hhigh) (Set.mem_Iio.mpr (by omega)) (Set.mem_Iio.mpr (by omega))
          (by omega)
    · -- the second half is all false
      by_cases hsecond : j < 2 ^ s
      · exact ih (hb.congr hlow) (lt_of_le_of_lt hij hsecond) hsecond hij
      · obtain ⟨j, rfl⟩ := Nat.exists_eq_add_of_le (not_lt.mp hsecond)
        have hfalse : ∀ j < 2 ^ s, ¬ merge s (fun i => exchange s p (2 ^ s + i)) j :=
          merge_all (P := Not) (fun _ _ ha hb h => Or.elim h ha hb) (fun _ _ ha _ h => ha (And.left h))
            dvd_rfl fun j hj hj' => hnone j hj ((hhigh j hj).mp hj')
        rw [hupper]
        exact fun hj' => absurd hj' (hfalse j (by omega))

theorem falling_cut (h : AntitoneOn p (Set.Iio n)) : ∃ m ≤ n, ∀ i < n, p i ↔ i < m := by
  classical
  by_cases hall : ∀ i < n, p i
  · exact ⟨n, le_rfl, fun i hi => iff_of_true (hall i hi) hi⟩
  · push Not at hall
    have hspec := Nat.find_spec hall
    refine ⟨Nat.find hall, hspec.1.le, fun i hi => ⟨fun hp => ?_, fun hlt => ?_⟩⟩
    · by_contra hle
      exact hspec.2 (h hspec.1 hi (not_lt.mp hle) hp)
    · by_contra hp
      exact Nat.find_min hall hlt ⟨hi, hp⟩

theorem flipOdd_block {α : Type*} (x : ℕ → α) (b : ℕ) {i : ℕ} (hi : i < 2 ^ s) :
    flipOdd s x (2 ^ s * b + i) =
      if b % 2 = 0 then x (2 ^ s * b + i) else x (2 ^ s * b + (2 ^ s - 1 - i)) := by
  rw [flipOdd, mirror_block b hi, Nat.mul_add_div (Nat.two_pow_pos s), Nat.div_eq_of_lt hi,
    Nat.add_zero]

theorem bitonicBlocks_flipOdd (h : BitonicBlocks s p) : BitonicBlocks s (flipOdd s p) := by
  intro b
  by_cases hb : b % 2 = 0
  · refine (h b).congr fun i hi => ?_
    rw [flipOdd_block p b hi, if_pos hb]
  · refine (h b).mirror.congr fun i hi => ?_
    rw [flipOdd_block p b hi, if_neg hb]

theorem bitonicBlocks_one (p : ℕ → Prop) : BitonicBlocks 1 p := by
  intro b
  have hcases : ∀ q : ℕ → Prop, Bitonic 2 q := by
    intro q
    by_cases h0 : q 0 <;> by_cases h1 : q 1
    · refine ⟨0, 2, .inl fun i hi => ?_⟩
      interval_cases i <;> simp [h0, h1]
    · refine ⟨0, 1, .inl fun i hi => ?_⟩
      interval_cases i <;> simp [h0, h1]
    · refine ⟨1, 2, .inl fun i hi => ?_⟩
      interval_cases i <;> simp [h0, h1]
    · refine ⟨0, 0, .inl fun i hi => ?_⟩
      interval_cases i <;> simp [h0, h1]
  exact hcases _

/-- A stage turns bitonic blocks into bitonic blocks of twice the size: the first half
falls, the second, turned back, rises. -/
theorem bitonicBlocks_stage (h : BitonicBlocks s p) : BitonicBlocks (s + 1) (stage s p) := by
  have hmerged : ∀ b, ∃ m ≤ 2 ^ s, ∀ i < 2 ^ s,
      merge s (flipOdd s p) (2 ^ s * b + i) ↔ i < m := by
    intro b
    refine falling_cut fun i hi j hj hij => ?_
    rw [merge_shift (dvd_mul_right _ _), merge_shift (dvd_mul_right _ _)]
    exact merge_bitonic (bitonicBlocks_flipOdd h b) hi hj hij
  intro b
  obtain ⟨lo, hlo, hfirst⟩ := hmerged (2 * b)
  obtain ⟨m, hm, hsecond⟩ := hmerged (2 * b + 1)
  have hsize : 2 ^ (s + 1) = 2 ^ s + 2 ^ s := by ring
  refine ⟨lo, 2 ^ s + (2 ^ s - m), .inr fun i hi => ?_⟩
  by_cases hhalf : i < 2 ^ s
  · have hplace : 2 ^ (s + 1) * b + i = 2 ^ s * (2 * b) + i := by ring
    beta_reduce
    rw [hplace, stage, flipOdd_block _ _ hhalf, if_pos (by omega), hfirst i hhalf]
    omega
  · obtain ⟨j, rfl⟩ := Nat.exists_eq_add_of_le (not_lt.mp hhalf)
    have hj : j < 2 ^ s := by omega
    have hplace : 2 ^ (s + 1) * b + (2 ^ s + j) = 2 ^ s * (2 * b + 1) + j := by ring
    beta_reduce
    rw [hplace, stage, flipOdd_block _ _ hj, if_neg (by omega), hsecond _ (by omega)]
    omega

theorem bitonicBlocks_stages (s : ℕ) (p : ℕ → Prop) : BitonicBlocks (s + 1) (stages s p) := by
  induction s with
  | zero => exact bitonicBlocks_one p
  | succ s ih => exact bitonicBlocks_stage ih

theorem network_truth (n : ℕ) (p : ℕ → Prop) : AntitoneOn (network n p) (Set.Iio (2 ^ n)) := by
  cases n with
  | zero =>
    intro i hi j hj _
    rw [Set.mem_Iio] at hi hj
    have hij : i = j := by omega
    rw [hij]
  | succ n =>
    have hblock := bitonicBlocks_stages n p 0
    simp only [Nat.mul_zero, Nat.zero_add] at hblock
    exact merge_bitonic hblock

end Truth

/-! Rearrangements. -/

section Rearrangement

variable {α : Type*} {n : ℕ} {x y z : ℕ → α}

/-- y has the values of x in its first n places, each as often. -/
def Rearranged (n : ℕ) (x y : ℕ → α) : Prop :=
  ∃ σ : Equiv.Perm ℕ, (∀ i, σ i < n ↔ i < n) ∧ ∀ i < n, y i = x (σ i)

theorem Rearranged.refl (n : ℕ) (x : ℕ → α) : Rearranged n x x :=
  ⟨Equiv.refl ℕ, fun _ => Iff.rfl, fun _ _ => rfl⟩

theorem Rearranged.trans (hxy : Rearranged n x y) (hyz : Rearranged n y z) : Rearranged n x z := by
  obtain ⟨σ, hσ, hy⟩ := hxy
  obtain ⟨τ, hτ, hz⟩ := hyz
  refine ⟨τ.trans σ, fun i => ?_, fun i hi => ?_⟩
  · rw [Equiv.trans_apply, hσ, hτ]
  · rw [Equiv.trans_apply, hz i hi, hy _ ((hτ i).mpr hi)]

theorem rearranged_flipOdd {s : ℕ} (hn : 2 ^ s ∣ n) (x : ℕ → α) : Rearranged n x (flipOdd s x) := by
  let σ : ℕ → ℕ := fun i => if i / 2 ^ s % 2 = 0 then i else mirror s i
  have hσ : Function.Involutive σ := by
    intro i
    by_cases h : i / 2 ^ s % 2 = 0
    · simp [σ, h]
    · simp [σ, h, mirror_div]
  refine ⟨hσ.toPerm, fun i => ?_, fun i _ => ?_⟩
  · rw [Function.Involutive.coe_toPerm]
    by_cases h : i / 2 ^ s % 2 = 0
    · simp [σ, h]
    · simp [σ, h, mirror_lt hn]
  · rw [Function.Involutive.coe_toPerm, flipOdd]
    by_cases h : i / 2 ^ s % 2 = 0 <;> simp [σ, h]

end Rearrangement

/-! Values. -/

section Values

variable {α : Type*} [LinearOrder α]

def atLeast (c : α) (x : ℕ → α) (i : ℕ) : Prop := c ≤ x i

theorem atLeast_flipOdd (c : α) (s : ℕ) (x : ℕ → α) :
    atLeast c (flipOdd s x) = flipOdd s (atLeast c x) := by
  funext i
  unfold atLeast flipOdd
  split_ifs <;> rfl

theorem atLeast_exchange (c : α) (k : ℕ) (x : ℕ → α) :
    atLeast c (exchange k x) = exchange k (atLeast c x) := by
  funext i
  unfold atLeast exchange
  split_ifs
  · rw [le_sup_iff]
    rfl
  · rw [le_inf_iff]
    rfl

theorem atLeast_merge (c : α) (s : ℕ) (x : ℕ → α) :
    atLeast c (merge s x) = merge s (atLeast c x) := by
  induction s generalizing x with
  | zero => rfl
  | succ s ih => rw [merge, merge, ih, atLeast_exchange]

theorem atLeast_stages (c : α) (s : ℕ) (x : ℕ → α) :
    atLeast c (stages s x) = stages s (atLeast c x) := by
  induction s with
  | zero => rfl
  | succ s ih =>
    rw [stages, stages, stage, stage, atLeast_flipOdd, atLeast_merge, atLeast_flipOdd, ih]

theorem atLeast_network (c : α) (n : ℕ) (x : ℕ → α) :
    atLeast c (network n x) = network n (atLeast c x) := by
  cases n with
  | zero => rfl
  | succ n => rw [network, network, atLeast_merge, atLeast_stages]

theorem network_falls (n : ℕ) (x : ℕ → α) : AntitoneOn (network n x) (Set.Iio (2 ^ n)) := by
  intro i hi j hj hij
  have hfalls := network_truth n (atLeast (network n x j) x) hi hj hij
  rw [← atLeast_network] at hfalls
  exact hfalls le_rfl

def source (k : ℕ) (x : ℕ → α) (i : ℕ) : ℕ :=
  if i / 2 ^ k % 2 = 0 then if x i < x (i + 2 ^ k) then i + 2 ^ k else i
  else if x (i - 2 ^ k) < x i then i - 2 ^ k else i

theorem exchange_source (k : ℕ) (x : ℕ → α) (i : ℕ) : exchange k x i = x (source k x i) := by
  unfold exchange source
  split_ifs with _ h h
  · exact sup_eq_right.mpr h.le
  · exact sup_eq_left.mpr (not_lt.mp h)
  · exact inf_eq_left.mpr h.le
  · exact inf_eq_right.mpr (not_lt.mp h)

theorem source_source (k : ℕ) (x : ℕ → α) (i : ℕ) : source k x (source k x i) = i := by
  by_cases hbit : i / 2 ^ k % 2 = 0
  · by_cases h : x i < x (i + 2 ^ k)
    · have hupper : (i / 2 ^ k + 1) % 2 = 1 := by omega
      simp [source, hbit, h, hupper]
    · simp [source, hbit, h]
  · have hback := Nat.sub_add_cancel (le_of_bit hbit)
    by_cases h : x (i - 2 ^ k) < x i
    · have hlower := lower_bit hbit
      simp [source, hbit, h, hlower, hback]
    · simp [source, hbit, h]

theorem source_lt {k n : ℕ} (hn : 2 ^ (k + 1) ∣ n) (x : ℕ → α) {i : ℕ} (hi : i < n) :
    source k x i < n := by
  unfold source
  split_ifs with hbit
  · exact upper_lt hn hi hbit
  · exact hi
  · exact lt_of_le_of_lt (Nat.sub_le i _) hi
  · exact hi

theorem rearranged_exchange {k n : ℕ} (hn : 2 ^ (k + 1) ∣ n) (x : ℕ → α) :
    Rearranged n x (exchange k x) := by
  have hσ : Function.Involutive (source k x) := source_source k x
  refine ⟨hσ.toPerm, fun i => ⟨fun hi => ?_, source_lt hn x⟩, fun i _ => exchange_source k x i⟩
  have hback := source_lt hn x hi
  rwa [Function.Involutive.coe_toPerm, source_source] at hback

theorem rearranged_merge {s n : ℕ} (hn : 2 ^ s ∣ n) (x : ℕ → α) : Rearranged n x (merge s x) := by
  induction s generalizing x with
  | zero => exact .refl n x
  | succ s ih => exact (rearranged_exchange hn x).trans (ih ((pow_dvd_pow 2 s.le_succ).trans hn) _)

theorem rearranged_stages {s n : ℕ} (hn : 2 ^ s ∣ n) (x : ℕ → α) : Rearranged n x (stages s x) := by
  induction s with
  | zero => exact .refl n x
  | succ s ih =>
    exact (ih ((pow_dvd_pow 2 s.le_succ).trans hn)).trans
      (((rearranged_flipOdd hn _).trans (rearranged_merge hn _)).trans (rearranged_flipOdd hn _))

theorem rearranged_network (n : ℕ) (x : ℕ → α) : Rearranged (2 ^ n) x (network n x) := by
  cases n with
  | zero => exact .refl _ x
  | succ n => exact (rearranged_stages (pow_dvd_pow 2 n.le_succ) x).trans (rearranged_merge dvd_rfl _)

end Values

end Cherum.BitonicSorting
