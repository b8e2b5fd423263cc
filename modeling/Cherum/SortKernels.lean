import Mathlib.Data.EReal.Inv
import Mathlib.Tactic.Linarith
import Cherum.BitonicSorting
import Cherum.ComputePasses

/-! The kernels of net.js that sort the 16384 scores: one that pads, thirteen that
compare places 2^k apart, twelve that turn blocks back and the next larger ones round,
and one that does both before the last merge. Shifts to the left are products with a
power of two, and indices stay below 2^31. -/

namespace Cherum.SortKernels
open BitonicSorting ComputePasses

/-- The numbers of the shaders: `f32` without NaN, its two zeros taken for one. -/
class F32 (F : Type*) extends LinearOrder F, Zero F, Add F, Neg F where
  infinity : F
  neg_neg : ∀ a : F, - -a = a
  neg_le_neg : ∀ a b : F, a ≤ b → -b ≤ -a
  zero_add : ∀ a : F, 0 + a = a
  add_zero : ∀ a : F, a + 0 = a

noncomputable instance : F32 EReal where
  infinity := ⊤
  neg_neg := neg_neg
  neg_le_neg _ _ h := EReal.neg_le_neg_iff.mpr h
  zero_add := zero_add
  add_zero := add_zero

def select {α : Type*} (f t : α) (cond : Prop) [Decidable cond] : α := if cond then t else f

section Kernels

variable {F : Type*} [F32 F]

/-- Of two values the larger goes to alu0 and the smaller to alu1. -/
def exchangePair (data1 : Buffer F) (alu0 alu1 : ℤ) : List (ℤ × F) :=
  let val0 := data1 alu0
  let val1 := data1 alu1
  let alu2 := -val0
  let alu3 := -val1
  let alu4 := select alu2 alu3 (alu2 < alu3)
  let alu6 := select val0 val1 (val0 < val1)
  [(alu1, -alu4), (alu0, alu6)]

def exchangeKernel (workgroups size : ℕ × ℕ × ℕ) (alu0 : Ids → ℤ) (stride : ℤ) :
    Kernel (Buffer F) F where
  grid := ⟨workgroups, size⟩
  main data1 i := exchangePair data1 (alu0 i) (alu0 i + stride)

def e_256_32_2 : Kernel (Buffer F) F :=
  exchangeKernel (256, 1, 1) (32, 1, 1) (fun i => i.gidx0 * 2 ^ 6 + i.lidx0 * 2 ^ 1) 1

def e_128_32_2_2 : Kernel (Buffer F) F :=
  exchangeKernel (128, 1, 1) (32, 2, 1) (fun i => i.lidx1 + i.gidx0 * 2 ^ 7 + i.lidx0 * 2 ^ 2) 2

def e_64_32_4_2 : Kernel (Buffer F) F :=
  exchangeKernel (64, 1, 1) (32, 4, 1) (fun i => i.lidx1 + i.gidx0 * 2 ^ 8 + i.lidx0 * 2 ^ 3) 4

def e_64_16_8_2 : Kernel (Buffer F) F :=
  exchangeKernel (64, 1, 1) (16, 8, 1) (fun i => i.lidx1 + i.gidx0 * 2 ^ 8 + i.lidx0 * 2 ^ 4) 8

def e_64_8_16_2 : Kernel (Buffer F) F :=
  exchangeKernel (64, 1, 1) (8, 16, 1) (fun i => i.lidx1 + i.gidx0 * 2 ^ 8 + i.lidx0 * 2 ^ 5) 16

def e_32_2_8_16_2 : Kernel (Buffer F) F :=
  exchangeKernel (2, 32, 1) (8, 16, 1)
    (fun i => i.lidx1 + i.gidx0 * 2 ^ 4 + i.gidx1 * 2 ^ 9 + i.lidx0 * 2 ^ 6) 32

def e_16_4_8_16_2 : Kernel (Buffer F) F :=
  exchangeKernel (4, 16, 1) (8, 16, 1)
    (fun i => i.lidx1 + i.gidx0 * 2 ^ 4 + i.gidx1 * 2 ^ 10 + i.lidx0 * 2 ^ 7) 64

def e_8_8_8_16_2 : Kernel (Buffer F) F :=
  exchangeKernel (8, 8, 1) (8, 16, 1)
    (fun i => i.lidx1 + i.gidx0 * 2 ^ 4 + i.gidx1 * 2 ^ 11 + i.lidx0 * 2 ^ 8) 128

def e_4_16_8_16_2 : Kernel (Buffer F) F :=
  exchangeKernel (16, 4, 1) (8, 16, 1)
    (fun i => i.lidx1 + i.gidx0 * 2 ^ 4 + i.gidx1 * 2 ^ 12 + i.lidx0 * 2 ^ 9) 256

def e_2_32_8_16_2 : Kernel (Buffer F) F :=
  exchangeKernel (32, 2, 1) (8, 16, 1)
    (fun i => i.lidx1 + i.gidx0 * 2 ^ 4 + i.gidx1 * 2 ^ 13 + i.lidx0 * 2 ^ 10) 512

def e_64_8_16_2n1 : Kernel (Buffer F) F :=
  exchangeKernel (64, 1, 1) (8, 16, 1) (fun i => i.lidx1 + i.gidx0 * 2 ^ 4 + i.lidx0 * 2 ^ 11) 1024

def e_128_4_16_2 : Kernel (Buffer F) F :=
  exchangeKernel (128, 1, 1) (4, 16, 1) (fun i => i.lidx1 + i.gidx0 * 2 ^ 4 + i.lidx0 * 2 ^ 12) 2048

def e_256_2_16_2 : Kernel (Buffer F) F :=
  exchangeKernel (256, 1, 1) (2, 16, 1) (fun i => i.lidx1 + i.gidx0 * 2 ^ 4 + i.lidx0 * 2 ^ 13) 4096

/-- In each four blocks of size `block` at `base`, the second is turned round, and the
third and the fourth change places, the third turned round. -/
def turnKernel (workgroups size : ℕ × ℕ × ℕ) (base offset : Ids → ℤ) (block : ℤ) :
    Kernel (Buffer F) F where
  grid := ⟨workgroups, size⟩
  main data1 i :=
    let alu1 := base i + offset i
    let alu2 := alu1 + 3 * block
    let alu3 := base i - offset i
    let val0 := data1 alu1
    let val1 := data1 alu2
    let val2 := data1 (alu3 + (2 * block - 1))
    let val3 := data1 (alu3 + (3 * block - 1))
    [(alu1, val0), (alu2, val3), (alu1 + block, val2), (alu1 + 2 * block, val1)]

def e_64_32_2_2_2 : Kernel (Buffer F) F :=
  turnKernel (64, 1, 1) (32, 2, 1) (fun i => i.gidx0 * 2 ^ 8 + i.lidx0 * 2 ^ 3) (fun i => i.lidx1) 2

def e_32_32_4_2_2 : Kernel (Buffer F) F :=
  turnKernel (32, 1, 1) (32, 4, 1) (fun i => i.gidx0 * 2 ^ 9 + i.lidx0 * 2 ^ 4) (fun i => i.lidx1) 4

def e_32_16_8_2_2 : Kernel (Buffer F) F :=
  turnKernel (32, 1, 1) (16, 8, 1) (fun i => i.gidx0 * 2 ^ 9 + i.lidx0 * 2 ^ 5) (fun i => i.lidx1) 8

def e_32_8_16_2_2 : Kernel (Buffer F) F :=
  turnKernel (32, 1, 1) (8, 16, 1)
    (fun i => i.gidx0 * 2 ^ 9 + i.lidx0 * 2 ^ 6) (fun i => i.lidx1) 16

def e_16_2_8_16_2_2 : Kernel (Buffer F) F :=
  turnKernel (2, 16, 1) (8, 16, 1)
    (fun i => i.gidx1 * 2 ^ 10 + i.lidx0 * 2 ^ 7) (fun i => i.gidx0 * 16 + i.lidx1) 32

def e_8_4_8_16_2_2 : Kernel (Buffer F) F :=
  turnKernel (4, 8, 1) (8, 16, 1)
    (fun i => i.gidx1 * 2 ^ 11 + i.lidx0 * 2 ^ 8) (fun i => i.gidx0 * 16 + i.lidx1) 64

def e_4_8_8_16_2_2 : Kernel (Buffer F) F :=
  turnKernel (8, 4, 1) (8, 16, 1)
    (fun i => i.gidx1 * 2 ^ 12 + i.lidx0 * 2 ^ 9) (fun i => i.gidx0 * 16 + i.lidx1) 128

def e_2_16_8_16_2_2 : Kernel (Buffer F) F :=
  turnKernel (16, 2, 1) (8, 16, 1)
    (fun i => i.gidx1 * 2 ^ 13 + i.lidx0 * 2 ^ 10) (fun i => i.gidx0 * 16 + i.lidx1) 256

def e_32_8_16_2_2n1 : Kernel (Buffer F) F :=
  turnKernel (32, 1, 1) (8, 16, 1) (fun i => i.lidx0 * 2 ^ 11) (fun i => i.gidx0 * 16 + i.lidx1) 512

def e_64_4_16_2_2 : Kernel (Buffer F) F :=
  turnKernel (64, 1, 1) (4, 16, 1)
    (fun i => i.lidx0 * 2 ^ 12) (fun i => i.gidx0 * 16 + i.lidx1) 1024

def e_128_2_16_2_2 : Kernel (Buffer F) F :=
  turnKernel (128, 1, 1) (2, 16, 1)
    (fun i => i.lidx0 * 2 ^ 13) (fun i => i.gidx0 * 16 + i.lidx1) 2048

def e_128_32_2_2n1 : Kernel (Buffer F) F :=
  turnKernel (128, 1, 1) (32, 1, 1) (fun _ => 0) (fun i => i.gidx0 * 32 + i.lidx0) 4096

/-- The second half is turned round and compared with the first. -/
def e_256_32_2n1 : Kernel (Buffer F) F where
  grid := ⟨(256, 1, 1), (32, 1, 1)⟩
  main data1 i :=
    let alu0 := i.lidx0 + i.gidx0 * 2 ^ 5
    let val0 := data1 alu0
    let val1 := data1 (i.gidx0 * -32 - i.lidx0 + 16383)
    let alu1 := -val0
    let alu2 := -val1
    let alu3 := select alu1 alu2 (alu1 < alu2)
    let alu5 := select val0 val1 (val0 < val1)
    [(alu0 + 8192, -alu3), (alu0, alu5)]

/-- The 8400 scores and then `-INFINITY`, each second pair turned round; the unrolled
loads and stores are 512 places apart. -/
def e_2_2_2_2_2_2_2_2_2_2_2_2_2_2 : Kernel (Buffer F) F where
  grid := ⟨(16, 2, 2), (2, 2, 2)⟩
  main data1 i :=
    let cast0 := i.gidx1
    let cast1 := i.gidx2
    let cast2 := i.gidx0 / 8
    let cast3 := i.gidx0 / 4 % 2
    let alu2 := i.gidx0 / 2 % 2
    let alu3 := cast0 * 2 ^ 7 + cast1 * 2 ^ 8 + cast2 * 2 ^ 6 + cast3 * 2 ^ 5 + alu2 * 2 ^ 4 +
      i.gidx0 % 2 * 2 ^ 3 + i.lidx0 * 2 ^ 2
    let alu0 := i.lidx1 < 1
    let alu4 := i.lidx2 + alu3
    let alu5 := alu0 ∧ cast0 * 2 ^ 3 + cast1 * 2 ^ 4 + cast2 * 2 ^ 2 + cast3 * 2 + alu2 < 13
    let alu6 := alu3 - i.lidx2
    let alu7 := ¬ alu0 ∧ alu6 < 205
    let alu8 := i.lidx2 + alu3 + i.lidx1 * 2
    let alu24 : F := select 0 (-F32.infinity) alu0
    let alu25 := select alu24 0 alu0
    let alu26 : F := select (-F32.infinity) 0 alu0
    let alu27 := select 0 alu26 alu0
    let alu44 := select alu24 0 alu5
    let alu45 := select alu26 0 alu7
    ((upto 15).map fun j => (alu8 + (8704 + 512 * j), -F32.infinity)) ++
      ((upto 16).map fun j => (alu8 + 512 * j,
        select 0 (data1 (alu4 + 512 * j)) alu0 + alu25 +
          select 0 (data1 (alu6 + (512 * j + 3))) (¬ alu0) + alu27)) ++
      [(alu8 + 8192, select 0 (data1 (alu4 + 8192)) alu5 + alu44 +
        select 0 (data1 (alu6 + 8195)) alu7 + alu45)]

end Kernels

section Values

variable {F : Type*} [F32 F]

theorem neg_lt_neg_iff {a b : F} : -a < -b ↔ b < a := by
  constructor
  · intro h
    by_contra hle
    exact absurd (F32.neg_le_neg _ _ (not_lt.mp hle)) (not_le.mpr h)
  · intro h
    by_contra hle
    have hback := F32.neg_le_neg _ _ (not_lt.mp hle)
    rw [F32.neg_neg, F32.neg_neg] at hback
    exact absurd hback (not_le.mpr h)

theorem select_lt (a b : F) : select a b (a < b) = a ⊔ b := by
  unfold select
  split_ifs with h
  · exact (sup_eq_right.mpr h.le).symm
  · exact (sup_eq_left.mpr (not_lt.mp h)).symm

theorem neg_select_neg (a b : F) : -select (-a) (-b) (-a < -b) = a ⊓ b := by
  unfold select
  simp only [neg_lt_neg_iff]
  split_ifs with h
  · rw [F32.neg_neg, inf_eq_right.mpr h.le]
  · rw [F32.neg_neg, inf_eq_left.mpr (not_lt.mp h)]

theorem exchangePair_eq (data1 : Buffer F) (alu0 alu1 : ℤ) : exchangePair data1 alu0 alu1 =
    [(alu1, data1 alu0 ⊓ data1 alu1), (alu0, data1 alu0 ⊔ data1 alu1)] := by
  dsimp only [exchangePair]
  rw [neg_select_neg, select_lt]

end Values

section Exchanging

variable {F : Type*} [F32 F] {workgroups size : ℕ × ℕ × ℕ}

theorem exchangeKernel_implements {alu0 : Ids → ℤ} {stride : ℤ} (k : ℕ) (hstride : stride = 2 ^ k)
    (hplaces : ∀ i, (Grid.mk workgroups size).Has i →
      0 ≤ alu0 i ∧ alu0 i / stride % 2 = 0 ∧ alu0 i + stride < 16384)
    (hcover : ∀ a : ℤ, 0 ≤ a → a < 16384 → a / stride % 2 = 0 →
      ∃ i, (Grid.mk workgroups size).Has i ∧ alu0 i = a)
    (hcount : (Grid.mk workgroups size).count * 2 = 16384) :
    (exchangeKernel workgroups size alu0 stride : Kernel (Buffer F) F).Implements 16384
      (exchange k) := by
  subst hstride
  intro data x hx
  have hstride : (0 : ℤ) < 2 ^ k := by positivity
  have hreads : ∀ i, (Grid.mk workgroups size).Has i → ∃ n : ℕ, alu0 i = n ∧ n / 2 ^ k % 2 = 0 ∧
      data (alu0 i) = x n ∧ data (alu0 i + 2 ^ k) = x (n + 2 ^ k) := by
    intro i hi
    obtain ⟨hpos, hbit, hlt⟩ := hplaces i hi
    obtain ⟨n, hn⟩ := Int.eq_ofNat_of_zero_le hpos
    rw [hn] at hbit hlt
    refine ⟨n, hn, by exact_mod_cast hbit, ?_, ?_⟩
    · rw [hn]
      exact hx n (by omega)
    · rw [hn]
      exact_mod_cast hx (n + 2 ^ k) (by exact_mod_cast hlt)
  constructor
  · intro i hi w hw
    obtain ⟨n, hn, hbit, hlow, hhigh⟩ := hreads i hi
    simp only [exchangeKernel, exchangePair_eq, hlow, hhigh, List.mem_cons, List.not_mem_nil,
      or_false] at hw
    rcases hw with rfl | rfl
    · have hplace : (alu0 i + 2 ^ k).toNat = n + 2 ^ k := by
        rw [hn]
        exact_mod_cast Int.toNat_natCast (n + 2 ^ k)
      have hupper := upper_bit hbit
      rw [hplace, exchange, if_neg (by omega), Nat.add_sub_cancel]
    · rw [hn, Int.toNat_natCast, exchange, if_pos hbit]
  · intro a hpos hlt
    obtain ⟨n, rfl⟩ := Int.eq_ofNat_of_zero_le hpos
    by_cases hbit : n / 2 ^ k % 2 = 0
    · obtain ⟨i, hi, hn⟩ := hcover n hpos hlt (by exact_mod_cast hbit)
      refine ⟨i, hi, data (alu0 i) ⊔ data (alu0 i + 2 ^ k), ?_⟩
      simp [exchangeKernel, exchangePair_eq, hn]
    · obtain ⟨m, rfl⟩ := Nat.exists_eq_add_of_le' (le_of_bit hbit)
      have hlower := lower_bit hbit
      rw [Nat.add_sub_cancel] at hlower
      push_cast at hlt
      have hm : (m : ℤ) < 16384 := by linarith
      obtain ⟨i, hi, hn⟩ := hcover m (Int.natCast_nonneg m) hm (by exact_mod_cast hlower)
      refine ⟨i, hi, data (alu0 i) ⊓ data (alu0 i + 2 ^ k), ?_⟩
      simp [exchangeKernel, exchangePair_eq, hn]
  · rw [Kernel.length_writes (c := 2) fun _ => rfl]
    exact hcount

end Exchanging

section Turning

variable {F : Type*}

/-- Blocks of 2^s turned back, and then those of 2^(s+1) turned round. -/
def turn (s : ℕ) (x : ℕ → F) : ℕ → F := flipOdd (s + 1) (flipOdd s x)

theorem turn_places {s b l m : ℕ} (x : ℕ → F) (h : l + m + 1 = 2 ^ s) :
    turn s x (2 ^ s * (4 * b) + l) = x (2 ^ s * (4 * b) + l) ∧
    turn s x (2 ^ s * (4 * b + 1) + l) = x (2 ^ s * (4 * b + 1) + m) ∧
    turn s x (2 ^ s * (4 * b + 2) + l) = x (2 ^ s * (4 * b + 3) + l) ∧
    turn s x (2 ^ s * (4 * b + 3) + l) = x (2 ^ s * (4 * b + 2) + m) := by
  have hl : l < 2 ^ s := by omega
  have hm : m < 2 ^ s := by omega
  have hml : 2 ^ s - 1 - l = m := by omega
  have hlm : 2 ^ s - 1 - m = l := by omega
  have hsize : 2 ^ (s + 1) = 2 * 2 ^ s := by ring
  have hfirst : ∀ c, 2 ^ s * (2 * c) + l = 2 ^ (s + 1) * c + l := fun c => by ring
  have hsecond : ∀ c, 2 ^ s * (2 * c + 1) + l = 2 ^ (s + 1) * c + (2 ^ s + l) := fun c => by ring
  have hback : ∀ c, 2 ^ (s + 1) * c + (2 ^ (s + 1) - 1 - l) = 2 ^ s * (2 * c + 1) + m := by
    intro c
    have hrest : 2 ^ (s + 1) - 1 - l = 2 ^ s + m := by omega
    rw [hrest]
    ring
  have hback' : ∀ c, 2 ^ (s + 1) * c + (2 ^ (s + 1) - 1 - (2 ^ s + l)) = 2 ^ s * (2 * c) + m := by
    intro c
    have hrest : 2 ^ (s + 1) - 1 - (2 ^ s + l) = m := by omega
    rw [hrest]
    ring
  unfold turn
  refine ⟨?_, ?_, ?_, ?_⟩
  · have hplace : 2 ^ s * (4 * b) + l = 2 ^ (s + 1) * (2 * b) + l := by ring
    rw [hplace, flipOdd_block _ _ (by omega), if_pos (by omega), ← hplace, flipOdd_block _ _ hl,
      if_pos (by omega)]
  · have hplace : 2 ^ s * (4 * b + 1) + l = 2 ^ (s + 1) * (2 * b) + (2 ^ s + l) := by ring
    rw [hplace, flipOdd_block _ _ (by omega), if_pos (by omega), ← hplace, flipOdd_block _ _ hl,
      if_neg (by omega), hml]
  · have hplace : 2 ^ s * (4 * b + 2) + l = 2 ^ (s + 1) * (2 * b + 1) + l := by ring
    have hodd : 2 * (2 * b + 1) + 1 = 4 * b + 3 := by ring
    rw [hplace, flipOdd_block _ _ (by omega), if_neg (by omega), hback, hodd, flipOdd_block _ _ hm,
      if_neg (by omega), hlm]
  · have hplace : 2 ^ s * (4 * b + 3) + l = 2 ^ (s + 1) * (2 * b + 1) + (2 ^ s + l) := by ring
    have heven : 2 * (2 * b + 1) = 4 * b + 2 := by ring
    rw [hplace, flipOdd_block _ _ (by omega), if_neg (by omega), hback', heven,
      flipOdd_block _ _ hm, if_pos (by omega)]

theorem blocks_inj {s b c l m : ℕ} (hl : l < 2 ^ s) (hm : m < 2 ^ s)
    (h : 2 ^ s * b + l = 2 ^ s * c + m) : b = c ∧ l = m := by
  have hdiv := congrArg (· / 2 ^ s) h
  have hmod := congrArg (· % 2 ^ s) h
  simp only [Nat.mul_add_div (Nat.two_pow_pos s), Nat.div_eq_of_lt hl, Nat.div_eq_of_lt hm,
    Nat.add_zero] at hdiv
  simp only [Nat.mul_add_mod, Nat.mod_eq_of_lt hl, Nat.mod_eq_of_lt hm] at hmod
  exact ⟨hdiv, hmod⟩

theorem turnKernel_main (workgroups size : ℕ × ℕ × ℕ) {base offset : Ids → ℤ} {s : ℕ} {i : Ids}
    {data : Buffer F} {x : ℕ → F} (hx : ∀ m < 16384, data (m : ℕ) = x m)
    (hbase : 0 ≤ base i ∧ base i % (4 * 2 ^ s) = 0 ∧ base i + 4 * 2 ^ s ≤ 16384)
    (hoffset : 0 ≤ offset i ∧ offset i < 2 ^ s) : ∃ b l m : ℕ, l + m + 1 = 2 ^ s ∧
      base i + offset i = (2 ^ s * (4 * b) + l : ℕ) ∧
      (turnKernel workgroups size base offset (2 ^ s) : Kernel (Buffer F) F).main data i =
        [(((2 ^ s * (4 * b) + l : ℕ) : ℤ), x (2 ^ s * (4 * b) + l)),
          (((2 ^ s * (4 * b + 3) + l : ℕ) : ℤ), x (2 ^ s * (4 * b + 2) + m)),
          (((2 ^ s * (4 * b + 1) + l : ℕ) : ℤ), x (2 ^ s * (4 * b + 1) + m)),
          (((2 ^ s * (4 * b + 2) + l : ℕ) : ℤ), x (2 ^ s * (4 * b + 3) + l))] := by
  obtain ⟨hpos, hmod, hle⟩ := hbase
  have hpow : (0 : ℤ) < 2 ^ s := by positivity
  obtain ⟨q, hq⟩ := Int.dvd_of_emod_eq_zero hmod
  have hqpos : 0 ≤ q := by
    by_contra hneg
    have := mul_neg_of_pos_of_neg (mul_pos four_pos hpow) (not_le.mp hneg)
    omega
  obtain ⟨b, rfl⟩ := Int.eq_ofNat_of_zero_le hqpos
  obtain ⟨l, hl⟩ := Int.eq_ofNat_of_zero_le hoffset.1
  have hlt : l < 2 ^ s := by
    rw [hl] at hoffset
    exact_mod_cast hoffset.2
  obtain ⟨m, hm⟩ := Nat.exists_eq_add_of_lt hlt
  have hm' : (2 : ℤ) ^ s = l + m + 1 := by exact_mod_cast hm
  have hend : 2 ^ s * (4 * b + 4) ≤ 16384 := by
    rw [hq] at hle
    have hle' : (2 : ℤ) ^ s * (4 * b + 4) ≤ 16384 := by linarith
    exact_mod_cast hle'
  have hread : ∀ j n : ℕ, j < 4 → n < 2 ^ s →
      data ((2 ^ s * (4 * b + j) + n : ℕ) : ℤ) = x (2 ^ s * (4 * b + j) + n) := by
    intro j n hj hn
    refine hx _ (lt_of_lt_of_le ?_ hend)
    nlinarith
  have hplace : ∀ j : ℕ, base i + offset i + j * 2 ^ s = (2 ^ s * (4 * b + j) + l : ℕ) := by
    intro j
    rw [hq, hl]
    push_cast
    ring
  have hback : ∀ j : ℕ, base i - offset i + ((j + 1) * 2 ^ s - 1) =
      (2 ^ s * (4 * b + j) + m : ℕ) := by
    intro j
    rw [hq, hl]
    push_cast
    linarith
  have hlm : l < 2 ^ s ∧ m < 2 ^ s := by omega
  have h0 : base i + offset i = (2 ^ s * (4 * b) + l : ℕ) := by
    rw [← Nat.add_zero (4 * b), ← hplace]
    simp
  have h1 : base i + offset i + 2 ^ s = (2 ^ s * (4 * b + 1) + l : ℕ) := by
    rw [← hplace]
    simp
  have h2 : base i + offset i + 2 * 2 ^ s = (2 ^ s * (4 * b + 2) + l : ℕ) := by
    rw [← hplace]
    simp
  have h3 : base i + offset i + 3 * 2 ^ s = (2 ^ s * (4 * b + 3) + l : ℕ) := by
    rw [← hplace]
    simp
  have hback1 : base i - offset i + (2 * 2 ^ s - 1) = (2 ^ s * (4 * b + 1) + m : ℕ) := by
    rw [← hback]
    norm_num
  have hback2 : base i - offset i + (3 * 2 ^ s - 1) = (2 ^ s * (4 * b + 2) + m : ℕ) := by
    rw [← hback]
    norm_num
  refine ⟨b, l, m, hm.symm, h0, ?_⟩
  dsimp only [turnKernel]
  rw [hback1, hback2, h1, h2, h3, h0, hread 1 m (by decide) hlm.2, hread 2 m (by decide) hlm.2,
    hread 3 l (by decide) hlm.1]
  congr 3
  exact hread 0 l (by decide) hlm.1

theorem turnKernel_implements {workgroups size : ℕ × ℕ × ℕ} {base offset : Ids → ℤ} {block : ℤ}
    (s : ℕ) (hblock : block = 2 ^ s)
    (hplaces : ∀ i, (Grid.mk workgroups size).Has i →
      (0 ≤ base i ∧ base i % (4 * block) = 0 ∧ base i + 4 * block ≤ 16384) ∧
        0 ≤ offset i ∧ offset i < block)
    (hcover : ∀ a : ℤ, 0 ≤ a → a < 16384 → a / block % 4 = 0 →
      ∃ i, (Grid.mk workgroups size).Has i ∧ base i + offset i = a)
    (hcount : (Grid.mk workgroups size).count * 4 = 16384) :
    (turnKernel workgroups size base offset block : Kernel (Buffer F) F).Implements 16384
      (turn s) := by
  subst hblock
  intro data x hx
  have hpow : 0 < 2 ^ s := Nat.two_pow_pos s
  constructor
  · intro i hi w hw
    obtain ⟨b, l, m, hsum, -, hmain⟩ := turnKernel_main workgroups size hx
      (hplaces i hi).1 (hplaces i hi).2
    obtain ⟨h0, h1, h2, h3⟩ := turn_places (b := b) x hsum
    rw [hmain] at hw
    simp only [List.mem_cons, List.not_mem_nil, or_false] at hw
    rcases hw with rfl | rfl | rfl | rfl <;> rw [Int.toNat_natCast]
    · exact h0.symm
    · exact h3.symm
    · exact h1.symm
    · exact h2.symm
  · intro a hpos hlt
    obtain ⟨n, rfl⟩ := Int.eq_ofNat_of_zero_le hpos
    -- the first place of n's group is written by the invocation that writes n
    obtain ⟨b, j, l, hj, hl, rfl⟩ : ∃ b j l, j < 4 ∧ l < 2 ^ s ∧ n = 2 ^ s * (4 * b + j) + l := by
      refine ⟨n / 2 ^ s / 4, n / 2 ^ s % 4, n % 2 ^ s, Nat.mod_lt _ four_pos, Nat.mod_lt _ hpow, ?_⟩
      rw [Nat.div_add_mod, Nat.div_add_mod]
    have hle : 2 ^ s * (4 * b) + l ≤ 2 ^ s * (4 * b + j) + l :=
      Nat.add_le_add_right (Nat.mul_le_mul_left _ (Nat.le_add_right _ j)) l
    have hbit : ((2 ^ s * (4 * b) + l : ℕ) : ℤ) / 2 ^ s % 4 = 0 := by
      have hdiv : (2 ^ s * (4 * b) + l) / 2 ^ s % 4 = 0 := by
        rw [Nat.mul_add_div hpow, Nat.div_eq_of_lt hl]
        omega
      exact_mod_cast hdiv
    obtain ⟨i, hi, hplace⟩ :=
      hcover (2 ^ s * (4 * b) + l : ℕ) (Int.natCast_nonneg _) (by omega) hbit
    obtain ⟨c, l', m, hsum, hstart, hmain⟩ := turnKernel_main workgroups size hx
      (hplaces i hi).1 (hplaces i hi).2
    rw [hstart] at hplace
    have hsame : 2 ^ s * (4 * c) + l' = 2 ^ s * (4 * b) + l := by exact_mod_cast hplace
    obtain ⟨hc, rfl⟩ := blocks_inj (by omega) hl hsame
    obtain rfl : c = b := by omega
    obtain ⟨h0, h1, h2, h3⟩ := turn_places (b := c) x hsum
    refine ⟨i, hi, turn s x (2 ^ s * (4 * c + j) + l'), ?_⟩
    rw [hmain]
    interval_cases j
    · simp only [Nat.add_zero, h0]
      exact List.mem_cons_self
    · rw [h1]
      simp
    · rw [h2]
      simp
    · rw [h3]
      simp
  · rw [Kernel.length_writes (c := 4) fun _ => rfl]
    exact hcount

end Turning

section Members

variable {F : Type*} [F32 F]

theorem e_256_32_2_implements :
    (e_256_32_2 : Kernel (Buffer F) F).Implements 16384 (exchange 0) := by
  refine exchangeKernel_implements 0 (by norm_num) ?_ ?_ rfl
  · rintro i ⟨h0, h1, h2, h3, h4, h5⟩
    dsimp only at *
    omega
  · intro a hpos hlt hbit
    refine ⟨⟨a / 64, 0, 0, a / 2 % 32, 0, 0⟩, ⟨?_, ?_, ?_, ?_, ?_, ?_⟩, ?_⟩ <;> dsimp only <;> omega

theorem e_128_32_2_2_implements :
    (e_128_32_2_2 : Kernel (Buffer F) F).Implements 16384 (exchange 1) := by
  refine exchangeKernel_implements 1 (by norm_num) ?_ ?_ rfl
  · rintro i ⟨h0, h1, h2, h3, h4, h5⟩
    dsimp only at *
    omega
  · intro a hpos hlt hbit
    refine ⟨⟨a / 128, 0, 0, a / 4 % 32, a % 2, 0⟩, ⟨?_, ?_, ?_, ?_, ?_, ?_⟩, ?_⟩ <;>
      dsimp only <;> omega

theorem e_64_32_4_2_implements :
    (e_64_32_4_2 : Kernel (Buffer F) F).Implements 16384 (exchange 2) := by
  refine exchangeKernel_implements 2 (by norm_num) ?_ ?_ rfl
  · rintro i ⟨h0, h1, h2, h3, h4, h5⟩
    dsimp only at *
    omega
  · intro a hpos hlt hbit
    refine ⟨⟨a / 256, 0, 0, a / 8 % 32, a % 4, 0⟩, ⟨?_, ?_, ?_, ?_, ?_, ?_⟩, ?_⟩ <;>
      dsimp only <;> omega

theorem e_64_16_8_2_implements :
    (e_64_16_8_2 : Kernel (Buffer F) F).Implements 16384 (exchange 3) := by
  refine exchangeKernel_implements 3 (by norm_num) ?_ ?_ rfl
  · rintro i ⟨h0, h1, h2, h3, h4, h5⟩
    dsimp only at *
    omega
  · intro a hpos hlt hbit
    refine ⟨⟨a / 256, 0, 0, a / 16 % 16, a % 8, 0⟩, ⟨?_, ?_, ?_, ?_, ?_, ?_⟩, ?_⟩ <;>
      dsimp only <;> omega

theorem e_64_8_16_2_implements :
    (e_64_8_16_2 : Kernel (Buffer F) F).Implements 16384 (exchange 4) := by
  refine exchangeKernel_implements 4 (by norm_num) ?_ ?_ rfl
  · rintro i ⟨h0, h1, h2, h3, h4, h5⟩
    dsimp only at *
    omega
  · intro a hpos hlt hbit
    refine ⟨⟨a / 256, 0, 0, a / 32 % 8, a % 16, 0⟩, ⟨?_, ?_, ?_, ?_, ?_, ?_⟩, ?_⟩ <;>
      dsimp only <;> omega

theorem e_32_2_8_16_2_implements :
    (e_32_2_8_16_2 : Kernel (Buffer F) F).Implements 16384 (exchange 5) := by
  refine exchangeKernel_implements 5 (by norm_num) ?_ ?_ rfl
  · rintro i ⟨h0, h1, h2, h3, h4, h5⟩
    dsimp only at *
    omega
  · intro a hpos hlt hbit
    refine ⟨⟨a / 16 % 2, a / 512, 0, a / 64 % 8, a % 16, 0⟩, ⟨?_, ?_, ?_, ?_, ?_, ?_⟩, ?_⟩ <;>
      dsimp only <;> omega

theorem e_16_4_8_16_2_implements :
    (e_16_4_8_16_2 : Kernel (Buffer F) F).Implements 16384 (exchange 6) := by
  refine exchangeKernel_implements 6 (by norm_num) ?_ ?_ rfl
  · rintro i ⟨h0, h1, h2, h3, h4, h5⟩
    dsimp only at *
    omega
  · intro a hpos hlt hbit
    refine ⟨⟨a / 16 % 4, a / 1024, 0, a / 128 % 8, a % 16, 0⟩, ⟨?_, ?_, ?_, ?_, ?_, ?_⟩, ?_⟩ <;>
      dsimp only <;> omega

theorem e_8_8_8_16_2_implements :
    (e_8_8_8_16_2 : Kernel (Buffer F) F).Implements 16384 (exchange 7) := by
  refine exchangeKernel_implements 7 (by norm_num) ?_ ?_ rfl
  · rintro i ⟨h0, h1, h2, h3, h4, h5⟩
    dsimp only at *
    omega
  · intro a hpos hlt hbit
    refine ⟨⟨a / 16 % 8, a / 2048, 0, a / 256 % 8, a % 16, 0⟩, ⟨?_, ?_, ?_, ?_, ?_, ?_⟩, ?_⟩ <;>
      dsimp only <;> omega

theorem e_4_16_8_16_2_implements :
    (e_4_16_8_16_2 : Kernel (Buffer F) F).Implements 16384 (exchange 8) := by
  refine exchangeKernel_implements 8 (by norm_num) ?_ ?_ rfl
  · rintro i ⟨h0, h1, h2, h3, h4, h5⟩
    dsimp only at *
    omega
  · intro a hpos hlt hbit
    refine ⟨⟨a / 16 % 16, a / 4096, 0, a / 512 % 8, a % 16, 0⟩, ⟨?_, ?_, ?_, ?_, ?_, ?_⟩, ?_⟩ <;>
      dsimp only <;> omega

theorem e_2_32_8_16_2_implements :
    (e_2_32_8_16_2 : Kernel (Buffer F) F).Implements 16384 (exchange 9) := by
  refine exchangeKernel_implements 9 (by norm_num) ?_ ?_ rfl
  · rintro i ⟨h0, h1, h2, h3, h4, h5⟩
    dsimp only at *
    omega
  · intro a hpos hlt hbit
    refine ⟨⟨a / 16 % 32, a / 8192, 0, a / 1024 % 8, a % 16, 0⟩, ⟨?_, ?_, ?_, ?_, ?_, ?_⟩, ?_⟩ <;>
      dsimp only <;> omega

theorem e_64_8_16_2n1_implements :
    (e_64_8_16_2n1 : Kernel (Buffer F) F).Implements 16384 (exchange 10) := by
  refine exchangeKernel_implements 10 (by norm_num) ?_ ?_ rfl
  · rintro i ⟨h0, h1, h2, h3, h4, h5⟩
    dsimp only at *
    omega
  · intro a hpos hlt hbit
    refine ⟨⟨a / 16 % 64, 0, 0, a / 2048, a % 16, 0⟩, ⟨?_, ?_, ?_, ?_, ?_, ?_⟩, ?_⟩ <;>
      dsimp only <;> omega

theorem e_128_4_16_2_implements :
    (e_128_4_16_2 : Kernel (Buffer F) F).Implements 16384 (exchange 11) := by
  refine exchangeKernel_implements 11 (by norm_num) ?_ ?_ rfl
  · rintro i ⟨h0, h1, h2, h3, h4, h5⟩
    dsimp only at *
    omega
  · intro a hpos hlt hbit
    refine ⟨⟨a / 16 % 128, 0, 0, a / 4096, a % 16, 0⟩, ⟨?_, ?_, ?_, ?_, ?_, ?_⟩, ?_⟩ <;>
      dsimp only <;> omega

theorem e_256_2_16_2_implements :
    (e_256_2_16_2 : Kernel (Buffer F) F).Implements 16384 (exchange 12) := by
  refine exchangeKernel_implements 12 (by norm_num) ?_ ?_ rfl
  · rintro i ⟨h0, h1, h2, h3, h4, h5⟩
    dsimp only at *
    omega
  · intro a hpos hlt hbit
    refine ⟨⟨a / 16 % 256, 0, 0, a / 8192, a % 16, 0⟩, ⟨?_, ?_, ?_, ?_, ?_, ?_⟩, ?_⟩ <;>
      dsimp only <;> omega

end Members

section Turned

variable {F : Type*}

theorem e_64_32_2_2_2_implements :
    (e_64_32_2_2_2 : Kernel (Buffer F) F).Implements 16384 (turn 1) := by
  refine turnKernel_implements 1 (by norm_num) ?_ ?_ rfl
  · rintro i ⟨h0, h1, h2, h3, h4, h5⟩
    dsimp only at *
    omega
  · intro a hpos hlt hbit
    refine ⟨⟨a / 256, 0, 0, a / 8 % 32, a % 8, 0⟩, ⟨?_, ?_, ?_, ?_, ?_, ?_⟩, ?_⟩ <;>
      dsimp only <;> omega

theorem e_32_32_4_2_2_implements :
    (e_32_32_4_2_2 : Kernel (Buffer F) F).Implements 16384 (turn 2) := by
  refine turnKernel_implements 2 (by norm_num) ?_ ?_ rfl
  · rintro i ⟨h0, h1, h2, h3, h4, h5⟩
    dsimp only at *
    omega
  · intro a hpos hlt hbit
    refine ⟨⟨a / 512, 0, 0, a / 16 % 32, a % 16, 0⟩, ⟨?_, ?_, ?_, ?_, ?_, ?_⟩, ?_⟩ <;>
      dsimp only <;> omega

theorem e_32_16_8_2_2_implements :
    (e_32_16_8_2_2 : Kernel (Buffer F) F).Implements 16384 (turn 3) := by
  refine turnKernel_implements 3 (by norm_num) ?_ ?_ rfl
  · rintro i ⟨h0, h1, h2, h3, h4, h5⟩
    dsimp only at *
    omega
  · intro a hpos hlt hbit
    refine ⟨⟨a / 512, 0, 0, a / 32 % 16, a % 32, 0⟩, ⟨?_, ?_, ?_, ?_, ?_, ?_⟩, ?_⟩ <;>
      dsimp only <;> omega

theorem e_32_8_16_2_2_implements :
    (e_32_8_16_2_2 : Kernel (Buffer F) F).Implements 16384 (turn 4) := by
  refine turnKernel_implements 4 (by norm_num) ?_ ?_ rfl
  · rintro i ⟨h0, h1, h2, h3, h4, h5⟩
    dsimp only at *
    omega
  · intro a hpos hlt hbit
    refine ⟨⟨a / 512, 0, 0, a / 64 % 8, a % 64, 0⟩, ⟨?_, ?_, ?_, ?_, ?_, ?_⟩, ?_⟩ <;>
      dsimp only <;> omega

theorem e_16_2_8_16_2_2_implements :
    (e_16_2_8_16_2_2 : Kernel (Buffer F) F).Implements 16384 (turn 5) := by
  refine turnKernel_implements 5 (by norm_num) ?_ ?_ rfl
  · rintro i ⟨h0, h1, h2, h3, h4, h5⟩
    dsimp only at *
    omega
  · intro a hpos hlt hbit
    refine ⟨⟨a / 16 % 2, a / 1024, 0, a / 128 % 8, a % 16, 0⟩, ⟨?_, ?_, ?_, ?_, ?_, ?_⟩, ?_⟩ <;>
      dsimp only <;> omega

theorem e_8_4_8_16_2_2_implements :
    (e_8_4_8_16_2_2 : Kernel (Buffer F) F).Implements 16384 (turn 6) := by
  refine turnKernel_implements 6 (by norm_num) ?_ ?_ rfl
  · rintro i ⟨h0, h1, h2, h3, h4, h5⟩
    dsimp only at *
    omega
  · intro a hpos hlt hbit
    refine ⟨⟨a / 16 % 4, a / 2048, 0, a / 256 % 8, a % 16, 0⟩, ⟨?_, ?_, ?_, ?_, ?_, ?_⟩, ?_⟩ <;>
      dsimp only <;> omega

theorem e_4_8_8_16_2_2_implements :
    (e_4_8_8_16_2_2 : Kernel (Buffer F) F).Implements 16384 (turn 7) := by
  refine turnKernel_implements 7 (by norm_num) ?_ ?_ rfl
  · rintro i ⟨h0, h1, h2, h3, h4, h5⟩
    dsimp only at *
    omega
  · intro a hpos hlt hbit
    refine ⟨⟨a / 16 % 8, a / 4096, 0, a / 512 % 8, a % 16, 0⟩, ⟨?_, ?_, ?_, ?_, ?_, ?_⟩, ?_⟩ <;>
      dsimp only <;> omega

theorem e_2_16_8_16_2_2_implements :
    (e_2_16_8_16_2_2 : Kernel (Buffer F) F).Implements 16384 (turn 8) := by
  refine turnKernel_implements 8 (by norm_num) ?_ ?_ rfl
  · rintro i ⟨h0, h1, h2, h3, h4, h5⟩
    dsimp only at *
    omega
  · intro a hpos hlt hbit
    refine ⟨⟨a / 16 % 16, a / 8192, 0, a / 1024 % 8, a % 16, 0⟩, ⟨?_, ?_, ?_, ?_, ?_, ?_⟩, ?_⟩ <;>
      dsimp only <;> omega

theorem e_32_8_16_2_2n1_implements :
    (e_32_8_16_2_2n1 : Kernel (Buffer F) F).Implements 16384 (turn 9) := by
  refine turnKernel_implements 9 (by norm_num) ?_ ?_ rfl
  · rintro i ⟨h0, h1, h2, h3, h4, h5⟩
    dsimp only at *
    omega
  · intro a hpos hlt hbit
    refine ⟨⟨a / 16 % 32, 0, 0, a / 2048, a % 16, 0⟩, ⟨?_, ?_, ?_, ?_, ?_, ?_⟩, ?_⟩ <;>
      dsimp only <;> omega

theorem e_64_4_16_2_2_implements :
    (e_64_4_16_2_2 : Kernel (Buffer F) F).Implements 16384 (turn 10) := by
  refine turnKernel_implements 10 (by norm_num) ?_ ?_ rfl
  · rintro i ⟨h0, h1, h2, h3, h4, h5⟩
    dsimp only at *
    omega
  · intro a hpos hlt hbit
    refine ⟨⟨a / 16 % 64, 0, 0, a / 4096, a % 16, 0⟩, ⟨?_, ?_, ?_, ?_, ?_, ?_⟩, ?_⟩ <;>
      dsimp only <;> omega

theorem e_128_2_16_2_2_implements :
    (e_128_2_16_2_2 : Kernel (Buffer F) F).Implements 16384 (turn 11) := by
  refine turnKernel_implements 11 (by norm_num) ?_ ?_ rfl
  · rintro i ⟨h0, h1, h2, h3, h4, h5⟩
    dsimp only at *
    omega
  · intro a hpos hlt hbit
    refine ⟨⟨a / 16 % 128, 0, 0, a / 8192, a % 16, 0⟩, ⟨?_, ?_, ?_, ?_, ?_, ?_⟩, ?_⟩ <;>
      dsimp only <;> omega

theorem e_128_32_2_2n1_implements :
    (e_128_32_2_2n1 : Kernel (Buffer F) F).Implements 16384 (turn 12) := by
  refine turnKernel_implements 12 (by norm_num) ?_ ?_ rfl
  · rintro i ⟨h0, h1, h2, h3, h4, h5⟩
    dsimp only at *
    omega
  · intro a hpos hlt hbit
    refine ⟨⟨a / 32, 0, 0, a % 32, 0, 0⟩, ⟨?_, ?_, ?_, ?_, ?_, ?_⟩, ?_⟩ <;> dsimp only <;> omega

end Turned

section Ends

variable {F : Type*} [F32 F]

theorem e_256_32_2n1_implements :
    (e_256_32_2n1 : Kernel (Buffer F) F).Implements 16384 fun x => exchange 13 (flipOdd 13 x) := by
  intro data x hx
  have hpow : 2 ^ 13 = 8192 := by norm_num
  have hsecond : ∀ n < 8192, flipOdd 13 x (n + 8192) = x (16383 - n) := by
    intro n hn
    have hplace : n + 8192 = 2 ^ 13 * 1 + n := by omega
    rw [hplace, flipOdd_block x 1 hn, if_neg (by decide)]
    congr 1
    omega
  have hlow : ∀ n < 8192, exchange 13 (flipOdd 13 x) n = x n ⊔ x (16383 - n) := by
    intro n hn
    rw [exchange, if_pos (by omega), hpow, hsecond n hn, flipOdd, if_pos (by omega)]
  have hhigh : ∀ n < 8192, exchange 13 (flipOdd 13 x) (n + 8192) = x n ⊓ x (16383 - n) := by
    intro n hn
    rw [exchange, if_neg (by omega), hpow, Nat.add_sub_cancel, hsecond n hn, flipOdd,
      if_pos (by omega)]
  have hmain : ∀ i, (e_256_32_2n1 : Kernel (Buffer F) F).grid.Has i → ∃ n : ℕ, n < 8192 ∧
      i.lidx0 + i.gidx0 * 2 ^ 5 = n ∧ (e_256_32_2n1 : Kernel (Buffer F) F).main data i =
        [((n : ℤ) + 8192, x n ⊓ x (16383 - n)), ((n : ℤ), x n ⊔ x (16383 - n))] := by
    rintro i ⟨h0, h1, h2, h3, h4, h5⟩
    dsimp only [e_256_32_2n1] at h0 h1 h2 h3 h4 h5 ⊢
    obtain ⟨n, hn⟩ := Int.eq_ofNat_of_zero_le (show 0 ≤ i.lidx0 + i.gidx0 * 2 ^ 5 by omega)
    have hlt : n < 8192 := by omega
    have hback : i.gidx0 * -32 - i.lidx0 + 16383 = (16383 - n : ℕ) := by omega
    refine ⟨n, hlt, hn, ?_⟩
    rw [neg_select_neg, select_lt, hn, hback, hx n (by omega), hx (16383 - n) (by omega)]
  constructor
  · intro i hi w hw
    obtain ⟨n, hn, -, hwrites⟩ := hmain i hi
    rw [hwrites] at hw
    simp only [List.mem_cons, List.not_mem_nil, or_false] at hw
    rcases hw with rfl | rfl
    · have hplace : ((n : ℤ) + 8192).toNat = n + 8192 := by omega
      beta_reduce
      rw [hplace, hhigh n hn]
    · beta_reduce
      rw [Int.toNat_natCast, hlow n hn]
  · intro a hpos hlt
    have hgrid : (e_256_32_2n1 : Kernel (Buffer F) F).grid.Has
        ⟨a % 8192 / 32, 0, 0, a % 32, 0, 0⟩ := by
      refine ⟨?_, ?_, ?_, ?_, ?_, ?_⟩ <;> dsimp only [e_256_32_2n1] <;> omega
    obtain ⟨n, hn, hplace, hwrites⟩ := hmain _ hgrid
    dsimp only at hplace
    refine ⟨_, hgrid, if a < 8192 then x n ⊔ x (16383 - n) else x n ⊓ x (16383 - n), ?_⟩
    rw [hwrites]
    split_ifs with hhalf
    · have ha : a = n := by omega
      rw [ha]
      exact List.mem_cons_of_mem _ List.mem_cons_self
    · have ha : a = n + 8192 := by omega
      rw [ha]
      exact List.mem_cons_self
  · rw [Kernel.length_writes (c := 2) fun _ => rfl]
    exact (rfl : (Grid.mk (256, 1, 1) (32, 1, 1)).count * 2 = 16384)

/-- The scores and after them `-INFINITY`. -/
def padded (x : ℕ → F) (m : ℕ) : F := if m < 8400 then x m else -F32.infinity

theorem flipOdd_padded {x : ℕ → F} {u l1 l2 : ℕ} (hl1 : l1 < 2) (hl2 : l2 < 2) :
    flipOdd 1 (padded x) (4 * u + 2 * l1 + l2) =
      if l1 = 0 then padded x (4 * u + l2) else padded x (4 * u + 3 - l2) := by
  have hplace : 4 * u + 2 * l1 + l2 = 2 ^ 1 * (2 * u + l1) + l2 := by ring
  rw [hplace, flipOdd_block _ _ hl2]
  interval_cases l1
  · rw [if_pos (by omega), if_pos rfl]
    congr 1
    ring
  · rw [if_neg (by omega), if_neg (by decide)]
    congr 1
    omega

theorem e_2_2_2_2_2_2_2_2_2_2_2_2_2_2_computes (data : Buffer F) (x : ℕ → F)
    (hx : ∀ m < 8400, data (m : ℕ) = x m) :
    (e_2_2_2_2_2_2_2_2_2_2_2_2_2_2 : Kernel (Buffer F) F).Computes 16384 data
      fun a => flipOdd 1 (padded x) a.toNat := by
  constructor
  · rintro ⟨g0, g1, g2, l0, l1, l2⟩ ⟨h0, h1, h2, h3, h4, h5⟩ w hw
    dsimp only [e_2_2_2_2_2_2_2_2_2_2_2_2_2_2] at h0 h1 h2 h3 h4 h5 hw
    obtain ⟨t, ht⟩ := Int.eq_ofNat_of_zero_le (show 0 ≤ g1 * 2 ^ 5 + g2 * 2 ^ 6 + g0 / 8 * 2 ^ 4 +
      g0 / 4 % 2 * 2 ^ 3 + g0 / 2 % 2 * 2 ^ 2 + g0 % 2 * 2 + l0 by omega)
    have halu3 : g1 * 2 ^ 7 + g2 * 2 ^ 8 + g0 / 8 * 2 ^ 6 + g0 / 4 % 2 * 2 ^ 5 +
        g0 / 2 % 2 * 2 ^ 4 + g0 % 2 * 2 ^ 3 + l0 * 2 ^ 2 = 4 * t := by omega
    have hrow : g1 * 2 ^ 3 + g2 * 2 ^ 4 + g0 / 8 * 2 ^ 2 + g0 / 4 % 2 * 2 + g0 / 2 % 2 < 13 ↔
        (t : ℤ) < 52 := by omega
    have htlt : t < 128 := by omega
    rw [halu3] at hw
    simp only [hrow] at hw
    obtain ⟨n1, rfl⟩ := Int.eq_ofNat_of_zero_le h4.1
    obtain ⟨n2, rfl⟩ := Int.eq_ofNat_of_zero_le h5.1
    have hn1 : n1 < 2 := by omega
    have hn2 : n2 < 2 := by omega
    simp only [List.mem_append, List.mem_map, mem_upto, List.mem_singleton] at hw
    have hread : ∀ (n : ℕ) (a : ℤ), n < 8400 → a = n → data a = padded x n := by
      rintro n _ hn rfl
      rw [hx n hn, padded, if_pos hn]
    rcases hw with (⟨j, ⟨hj, hj'⟩, rfl⟩ | ⟨j, ⟨hj, hj'⟩, rfl⟩) | rfl
    · obtain ⟨m, rfl⟩ := Int.eq_ofNat_of_zero_le hj
      have hplace : ((n2 : ℤ) + 4 * t + n1 * 2 + (8704 + 512 * m)).toNat =
          4 * (t + 2176 + 128 * m) + 2 * n1 + n2 := by omega
      rw [hplace, flipOdd_padded hn1 hn2]
      split_ifs <;> rw [padded, if_neg (by omega)]
    · obtain ⟨m, rfl⟩ := Int.eq_ofNat_of_zero_le hj
      have hplace : ((n2 : ℤ) + 4 * t + n1 * 2 + 512 * m).toNat =
          4 * (t + 128 * m) + 2 * n1 + n2 := by omega
      rw [hplace, flipOdd_padded hn1 hn2]
      interval_cases n1
      · rw [if_pos rfl, ← hread _ (n2 + 4 * t + 512 * m) (by omega) (by push_cast; ring)]
        simp [select, F32.add_zero]
      · rw [if_neg (by decide), ← hread _ (4 * t - n2 + (512 * m + 3)) (by omega) (by omega)]
        simp [select, F32.zero_add, F32.add_zero]
    · have hplace : ((n2 : ℤ) + 4 * t + n1 * 2 + 8192).toNat =
          4 * (t + 2048) + 2 * n1 + n2 := by omega
      rw [hplace, flipOdd_padded hn1 hn2]
      interval_cases n1
      · rw [if_pos rfl]
        by_cases hend : (t : ℤ) < 52
        · rw [← hread _ (n2 + 4 * t + 8192) (by omega) (by push_cast; ring)]
          simp [select, hend, F32.add_zero]
        · rw [padded, if_neg (by omega)]
          simp [select, hend, F32.zero_add, F32.add_zero]
      · rw [if_neg (by decide)]
        by_cases hend : 4 * (t : ℤ) - n2 < 205
        · rw [← hread _ (4 * t - n2 + 8195) (by omega) (by omega)]
          simp [select, hend, F32.zero_add, F32.add_zero]
        · rw [padded, if_neg (by omega)]
          simp [select, hend, F32.zero_add, F32.add_zero]
  · intro a hpos hlt
    -- the place is row a / 512 of the invocation whose bits are those of a % 512
    let i : Ids := ⟨a / 8 % 16, a / 128 % 2, a / 256 % 2, a / 4 % 2, a / 2 % 2, a % 2⟩
    have hgrid : (e_2_2_2_2_2_2_2_2_2_2_2_2_2_2 : Kernel (Buffer F) F).grid.Has i := by
      refine ⟨?_, ?_, ?_, ?_, ?_, ?_⟩ <;> dsimp only [e_2_2_2_2_2_2_2_2_2_2_2_2_2_2, i] <;> omega
    have hplace : i.lidx2 + (i.gidx1 * 2 ^ 7 + i.gidx2 * 2 ^ 8 + i.gidx0 / 8 * 2 ^ 6 +
        i.gidx0 / 4 % 2 * 2 ^ 5 + i.gidx0 / 2 % 2 * 2 ^ 4 + i.gidx0 % 2 * 2 ^ 3 + i.lidx0 * 2 ^ 2) +
        i.lidx1 * 2 = a % 512 := by
      dsimp only [i]
      omega
    refine ⟨i, hgrid, ?_⟩
    dsimp only [e_2_2_2_2_2_2_2_2_2_2_2_2_2_2]
    rw [hplace]
    rcases lt_trichotomy (a / 512) 16 with hrow | hrow | hrow
    · refine ⟨_, List.mem_append_left _ (List.mem_append_right _
        (List.mem_map.mpr ⟨a / 512, mem_upto.mpr ⟨by omega, by omega⟩, Prod.ext ?_ rfl⟩))⟩
      dsimp only
      omega
    · refine ⟨_, List.mem_append_right _ (List.mem_singleton.mpr (Prod.ext ?_ rfl))⟩
      dsimp only
      omega
    · refine ⟨_, List.mem_append_left _ (List.mem_append_left _
        (List.mem_map.mpr ⟨a / 512 - 17, mem_upto.mpr ⟨by omega, by omega⟩, Prod.ext ?_ rfl⟩))⟩
      dsimp only
      omega
  · rw [Kernel.length_writes (c := 32)]
    · exact (rfl : (Grid.mk (16, 2, 2) (2, 2, 2)).count * 32 = 16384)
    · intro i
      simp [e_2_2_2_2_2_2_2_2_2_2_2_2_2_2]

end Ends

end Cherum.SortKernels
