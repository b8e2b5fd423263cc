import Mathlib

/-! Axis-parallel rectangles over an ordered field, given by two corners that
may stand in any order. The area counts a side that runs backwards as zero; the
signed area multiplies the sides as they are, so that two sides that run
backwards make it positive. -/

namespace Cherum.Rectangles

variable {K : Type*}

@[ext] structure Rectangle (K : Type*) where
  x1 : K
  y1 : K
  x2 : K
  y2 : K
  deriving DecidableEq

namespace Rectangle

section Order

variable [LinearOrder K]

def region (r : Rectangle K) : Set (K × K) := Set.Icc r.x1 r.x2 ×ˢ Set.Icc r.y1 r.y2

def inter (a b : Rectangle K) : Rectangle K :=
  ⟨max a.x1 b.x1, max a.y1 b.y1, min a.x2 b.x2, min a.y2 b.y2⟩

def Proper (r : Rectangle K) : Prop := r.x1 < r.x2 ∧ r.y1 < r.y2

/-- Apart in both axes: a gap of positive width and height lies between the two. -/
def Diagonal (a b : Rectangle K) : Prop :=
  (a.inter b).x2 < (a.inter b).x1 ∧ (a.inter b).y2 < (a.inter b).y1

instance (a b : Rectangle K) : Decidable (a.Diagonal b) :=
  inferInstanceAs (Decidable (_ ∧ _))

theorem region_inter (a b : Rectangle K) : (a.inter b).region = a.region ∩ b.region := by
  simp only [region, inter, Set.prod_inter_prod, Set.Icc_inter_Icc]

theorem inter_self (a : Rectangle K) : a.inter a = a := by
  simp [inter]

end Order

variable [Field K] [LinearOrder K]

def area (r : Rectangle K) : K := max 0 (r.x2 - r.x1) * max 0 (r.y2 - r.y1)

def signedArea (r : Rectangle K) : K := (r.x2 - r.x1) * (r.y2 - r.y1)

def overlap (a b : Rectangle K) : K :=
  (a.inter b).area / (a.area + b.area - (a.inter b).area)

theorem overlap_eq_zero {a b : Rectangle K} (h : (a.inter b).area = 0) : a.overlap b = 0 := by
  rw [overlap, h, zero_div]

variable [IsStrictOrderedRing K]

theorem area_of_forward {r : Rectangle K} (hx : r.x1 ≤ r.x2) (hy : r.y1 ≤ r.y2) :
    r.area = r.signedArea := by
  rw [area, signedArea, max_eq_right (sub_nonneg.mpr hx), max_eq_right (sub_nonneg.mpr hy)]

theorem area_of_backward {r : Rectangle K} (h : r.x2 < r.x1 ∨ r.y2 < r.y1) : r.area = 0 := by
  unfold area
  cases h with
  | inl h => rw [max_eq_left (sub_nonpos.mpr h.le), zero_mul]
  | inr h => rw [max_eq_left (sub_nonpos.mpr h.le), mul_zero]

theorem Proper.area {r : Rectangle K} (h : r.Proper) : r.area = r.signedArea :=
  area_of_forward h.1.le h.2.le

theorem Proper.signedArea_pos {r : Rectangle K} (h : r.Proper) : 0 < r.signedArea :=
  mul_pos (sub_pos.mpr h.1) (sub_pos.mpr h.2)

theorem Proper.area_pos {r : Rectangle K} (h : r.Proper) : 0 < r.area := by
  rw [h.area]
  exact h.signedArea_pos

theorem area_inter_of_disjoint {a b : Rectangle K} (h : Disjoint a.region b.region) :
    (a.inter b).area = 0 := by
  have hempty : (a.inter b).region = ∅ := by
    rw [region_inter]
    exact Set.disjoint_iff_inter_eq_empty.mp h
  rw [region, Set.prod_eq_empty_iff, Set.Icc_eq_empty_iff, Set.Icc_eq_empty_iff, not_le,
    not_le] at hempty
  exact area_of_backward hempty

theorem area_inter_le (a b : Rectangle K) : (a.inter b).area ≤ a.area := by
  have hside : ∀ {low high low' high' : K}, max 0 (min high high' - max low low') ≤
      max 0 (high - low) := fun {low high low' high'} =>
    max_le_max le_rfl (sub_le_sub (min_le_left _ _) (le_max_left _ _))
  exact mul_le_mul hside hside (le_max_left _ _) (le_max_left _ _)

theorem union_pos {a b : Rectangle K} (hb : b.Proper) :
    0 < a.area + b.area - (a.inter b).area := by
  have hle := area_inter_le a b
  have hpos := hb.area_pos
  linarith

theorem overlap_self {a : Rectangle K} (h : a.Proper) : a.overlap a = 1 := by
  rw [overlap, inter_self, add_sub_cancel_right, div_self h.area_pos.ne']

/-- Unless the two are apart in both axes, the signed area of the intersection
is its area, or both are without weight. -/
theorem signedArea_inter {a b : Rectangle K} (h : ¬ a.Diagonal b) :
    (a.inter b).signedArea = (a.inter b).area ∨
      (a.inter b).signedArea ≤ 0 ∧ (a.inter b).area = 0 := by
  rcases le_or_gt (a.inter b).x1 (a.inter b).x2 with hx | hx <;>
    rcases le_or_gt (a.inter b).y1 (a.inter b).y2 with hy | hy
  · exact .inl (area_of_forward hx hy).symm
  · refine .inr ⟨?_, area_of_backward (.inr hy)⟩
    exact mul_nonpos_of_nonneg_of_nonpos (sub_nonneg.mpr hx) (sub_nonpos.mpr hy.le)
  · refine .inr ⟨?_, area_of_backward (.inl hx)⟩
    exact mul_nonpos_of_nonpos_of_nonneg (sub_nonpos.mpr hx.le) (sub_nonneg.mpr hy)
  · exact absurd ⟨hx, hy⟩ h

theorem Diagonal.signedArea_pos {a b : Rectangle K} (h : a.Diagonal b) :
    0 < (a.inter b).signedArea :=
  mul_pos_of_neg_of_neg (sub_neg.mpr h.1) (sub_neg.mpr h.2)

end Rectangle

end Cherum.Rectangles
