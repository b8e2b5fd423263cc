import Cherum.BoxSuppression

/-! What suppression should keep and drop, by the areas of the boxes, and what
`processOutput` does. Its `intersection` multiplies the two sides as they are,
so for boxes apart in both axes it is the area of the gap between them. Where
that gap is neither too small nor too large for the boxes, one of them is
dropped although they have no point in common. -/

namespace Cherum.SuppressedBoxes
open BoxSuppression GreedySelection Rectangles Rectangle

def rectangle (box : Box) : Rectangle ℚ := ⟨box.x1, box.y1, box.x2, box.y2⟩

def overlap (a b : Box) : ℚ := (rectangle a).overlap (rectangle b)

def overlaps (a b : Box) : Bool := 7 / 10 ≤ overlap a b

def areas (a b : Box) : ℚ := (rectangle a).area + (rectangle b).area

/-- Apart in both axes, with a gap between 7/17 of both areas and both areas. -/
def Misjudged (a b : Box) : Prop :=
  (rectangle a).Diagonal (rectangle b) ∧
    intersection a b ≤ areas a b ∧ 7 * areas a b ≤ 17 * intersection a b

/-- What the suppression of these boxes should keep. -/
structure RightlyKept (boxes kept : List Box) : Prop where
  best_first : ∃ ranked, ranked.Perm boxes ∧ (ranked.Pairwise fun a b => b.prob ≤ a.prob) ∧
    kept.Sublist ranked
  separated : kept.Pairwise fun a b => overlap a b < 7 / 10
  covered : ∀ b ∈ boxes, ∃ k ∈ kept, b.prob ≤ k.prob ∧ 7 / 10 ≤ overlap k b
  alone : ∀ b ∈ boxes, (∀ c ∈ boxes, c ≠ b → Disjoint (rectangle c).region (rectangle b).region) →
    b ∈ kept

def ranked (boxes : List Box) : List Box := boxes.mergeSort inOrder

/-- Of the boxes that suppression by their areas keeps, none is misjudged
against a better one. -/
def NoneMisjudged (boxes : List Box) : Prop :=
  (greedy overlaps (ranked boxes)).Pairwise fun a b => ¬ Misjudged a b

theorem intersection_eq (a b : Box) :
    intersection a b = ((rectangle a).inter (rectangle b)).signedArea := rfl

theorem union_eq {a b : Box} (ha : (rectangle a).Proper) (hb : (rectangle b).Proper) :
    union a b = areas a b - intersection a b := by
  rw [areas, ha.area, hb.area]
  rfl

theorem areas_pos {a b : Box} (ha : (rectangle a).Proper) (hb : (rectangle b).Proper) :
    0 < areas a b := add_pos ha.area_pos hb.area_pos

theorem overlaps_eq_true {a b : Box} : overlaps a b = true ↔ 7 / 10 ≤ overlap a b :=
  decide_eq_true_iff

theorem drops_of_union {a b : Box} (h : union a b ≠ 0) :
    drops a b = true ↔ 7 / 10 ≤ intersection a b / union a b := by
  rw [drops, iou, JsNumber.div, if_neg h, JsNumber.lt, Bool.not_eq_true', decide_eq_false_iff_not,
    not_lt]

theorem drops_diagonal {a b : Box} (ha : (rectangle a).Proper) (hb : (rectangle b).Proper)
    (h : (rectangle a).Diagonal (rectangle b)) :
    drops a b = true ↔ intersection a b ≤ areas a b ∧ 7 * areas a b ≤ 17 * intersection a b := by
  have hgap : 0 < intersection a b := h.signedArea_pos
  have hareas := areas_pos ha hb
  have hunion := union_eq ha hb
  rcases lt_trichotomy (union a b) 0 with hneg | hzero | hpos
  · rw [drops_of_union hneg.ne, le_div_iff_of_neg hneg]
    exact iff_of_false (by linarith) fun hle => by linarith [hle.1]
  · have hinfinite : iou a b = .infinity false := by
      rw [iou, JsNumber.div, if_pos hzero, if_neg hgap.ne', decide_eq_false (not_lt.mpr hgap.le)]
    refine iff_of_true ?_ ⟨by linarith, by linarith⟩
    rw [drops, hinfinite]
    rfl
  · rw [drops_of_union hpos.ne', le_div_iff₀ hpos]
    constructor
    · intro hle
      constructor <;> linarith
    · intro hle
      linarith [hle.2]

/-- A kept box removes those it overlaps, and those it is misjudged against. -/
theorem drops_iff {a b : Box} (ha : (rectangle a).Proper) (hb : (rectangle b).Proper) :
    drops a b = true ↔ overlaps a b = true ∨ Misjudged a b := by
  have hunion := union_eq ha hb
  have hareas := areas_pos ha hb
  rw [overlaps_eq_true]
  by_cases hdiagonal : (rectangle a).Diagonal (rectangle b)
  · have hoverlap : overlap a b = 0 := overlap_eq_zero (area_of_backward (.inl hdiagonal.1))
    have hsmall : ¬ (7 / 10 : ℚ) ≤ overlap a b := by
      rw [hoverlap]
      norm_num
    rw [drops_diagonal ha hb hdiagonal]
    simp only [Misjudged, hdiagonal, hsmall, true_and, false_or]
  · have hmisjudged : ¬ Misjudged a b := fun h => hdiagonal h.1
    rw [or_iff_left hmisjudged]
    rcases signedArea_inter hdiagonal with harea | ⟨hsigned, harea⟩
    · have hpos := union_pos (a := rectangle a) hb
      have hvalue : intersection a b / union a b = overlap a b := by
        rw [hunion, intersection_eq, harea]
        rfl
      have hne : union a b ≠ 0 := by
        rw [hunion, intersection_eq, harea]
        exact hpos.ne'
      rw [drops_of_union hne, hvalue]
    · rw [← intersection_eq] at hsigned
      have hpos : 0 < union a b := by linarith
      have hoverlap : overlap a b = 0 := overlap_eq_zero harea
      rw [drops_of_union hpos.ne', hoverlap, le_div_iff₀ hpos]
      exact iff_of_false (by linarith) (by norm_num)

theorem ranked_perm (boxes : List Box) : (ranked boxes).Perm boxes := List.mergeSort_perm _ _

theorem ranked_sorted (boxes : List Box) :
    (ranked boxes).Pairwise fun a b => b.prob ≤ a.prob := by
  have hsorted : (ranked boxes).Pairwise fun a b => inOrder a b = true := by
    refine List.pairwise_mergeSort (fun a b c hab hbc => ?_) (fun a b => ?_) boxes
    · simp only [inOrder, decide_eq_true_eq] at hab hbc ⊢
      linarith
    · simp only [inOrder, Bool.or_eq_true, decide_eq_true_eq]
      rcases le_total a.prob b.prob with h | h
      · exact .inr (by linarith)
      · exact .inl (by linarith)
  refine hsorted.imp fun h => ?_
  simp only [inOrder, decide_eq_true_eq] at h
  linarith

theorem greedy_rightlyKept {boxes : List Box} (hproper : ∀ b ∈ boxes, (rectangle b).Proper) :
    RightlyKept boxes (greedy overlaps (ranked boxes)) := by
  have hcovered : ∀ b ∈ boxes, ∃ k ∈ greedy overlaps (ranked boxes),
      b.prob ≤ k.prob ∧ 7 / 10 ≤ overlap k b := by
    intro b hb
    have hranked : b ∈ ranked boxes := (ranked_perm boxes).mem_iff.mpr hb
    rcases greedy_covers (ranked_sorted boxes) hranked with hkept | ⟨k, hk, hprob, hoverlap⟩
    · refine ⟨b, hkept, le_rfl, ?_⟩
      rw [overlap, overlap_self (hproper b hb)]
      norm_num
    · exact ⟨k, hk, hprob, overlaps_eq_true.mp hoverlap⟩
  refine ⟨⟨_, ranked_perm boxes, ranked_sorted boxes, greedy_sublist _⟩, ?_, hcovered, ?_⟩
  · refine (greedy_pairwise (ranked boxes)).imp fun {a b} h => ?_
    exact not_le.mp fun hle => by rw [overlaps_eq_true.mpr hle] at h; cases h
  · intro b hb halone
    obtain ⟨k, hk, _, hoverlap⟩ := hcovered b hb
    have hmem : k ∈ boxes := (ranked_perm boxes).mem_iff.mp ((greedy_sublist _).subset hk)
    by_cases hkb : k = b
    · rwa [← hkb]
    · have hzero : overlap k b = 0 := overlap_eq_zero (area_inter_of_disjoint (halone k hmem hkb))
      rw [hzero] at hoverlap
      norm_num at hoverlap

theorem greedy_drops_iff {boxes : List Box} (hproper : ∀ b ∈ boxes, (rectangle b).Proper) :
    greedy drops (ranked boxes) = greedy overlaps (ranked boxes) ↔ NoneMisjudged boxes := by
  have hranked : ∀ b ∈ ranked boxes, (rectangle b).Proper :=
    fun b hb => hproper b ((ranked_perm boxes).mem_iff.mp hb)
  have hkept : ∀ b ∈ greedy overlaps (ranked boxes), (rectangle b).Proper :=
    fun b hb => hranked b ((greedy_sublist _).subset hb)
  rw [greedy_eq_iff fun a ha b hb hab => (drops_iff (hranked a ha) (hranked b hb)).mpr (.inl hab)]
  constructor
  · intro h
    refine h.imp_of_mem fun {a b} ha hb hab hmisjudged => ?_
    rw [(drops_iff (hkept a ha) (hkept b hb)).mpr (.inr hmisjudged)] at hab
    cases hab
  · intro h
    refine ((greedy_pairwise _).and h).imp_of_mem fun {a b} ha hb hab => ?_
    refine Bool.eq_false_iff.mpr fun hdrops => ?_
    rcases (drops_iff (hkept a ha) (hkept b hb)).mp hdrops with hoverlaps | hmisjudged
    · rw [hab.1] at hoverlaps
      cases hoverlaps
    · exact hab.2 hmisjudged

theorem processOutput_eq (output : ℕ → ℚ) (imgWidth imgHeight : ℚ) (more : ℕ) :
    processOutput (numPredictions + more) output imgWidth imgHeight =
      some (greedy drops (ranked (decoded output imgWidth imgHeight))) := by
  have hlength : (ranked (decoded output imgWidth imgHeight)).length = numPredictions := by
    rw [(ranked_perm _).length_eq, decoded, List.length_map, List.length_range]
  have hfuel : (ranked (decoded output imgWidth imgHeight)).length ≤ numPredictions + more := by
    rw [hlength]
    exact Nat.le_add_right _ _
  exact suppress_eq hfuel

theorem eq_greedy_of_rightlyKept {boxes kept : List Box}
    (hdistinct : boxes.Pairwise fun a b => a.prob ≠ b.prob) (hsub : kept.Sublist (ranked boxes))
    (h : RightlyKept boxes kept) : kept = greedy overlaps (ranked boxes) := by
  have hne : (ranked boxes).Pairwise fun a b => a.prob ≠ b.prob :=
    ((ranked_perm boxes).pairwise_iff fun {a b} hab => hab.symm).mpr hdistinct
  have hstrict : (ranked boxes).Pairwise fun a b => b.prob < a.prob :=
    ((ranked_sorted boxes).and hne).imp fun {a b} hab => lt_of_le_of_ne hab.1 hab.2.symm
  refine eq_greedy hstrict hsub ?_ fun b hb => ?_
  · exact h.separated.imp fun {a b} hab => decide_eq_false (not_le.mpr hab)
  · obtain ⟨k, hk, hprob, hoverlap⟩ := h.covered b ((ranked_perm boxes).mem_iff.mp hb)
    exact ⟨k, hk, hprob, overlaps_eq_true.mpr hoverlap⟩

/-- If none of the boxes to be kept is misjudged, `processOutput` keeps and
drops the right ones; otherwise it does not keep those, and without ties in
probability what it keeps is not right. -/
theorem processOutput_right_iff (output : ℕ → ℚ) (imgWidth imgHeight : ℚ) (more : ℕ)
    (hproper : ∀ b ∈ decoded output imgWidth imgHeight, (rectangle b).Proper) :
    ∃ kept, processOutput (numPredictions + more) output imgWidth imgHeight = some kept ∧
      (NoneMisjudged (decoded output imgWidth imgHeight) →
        RightlyKept (decoded output imgWidth imgHeight) kept) ∧
      (NoneMisjudged (decoded output imgWidth imgHeight) ↔
        kept = greedy overlaps (ranked (decoded output imgWidth imgHeight))) ∧
      (((decoded output imgWidth imgHeight).Pairwise fun a b => a.prob ≠ b.prob) →
        RightlyKept (decoded output imgWidth imgHeight) kept →
          NoneMisjudged (decoded output imgWidth imgHeight)) := by
  refine ⟨_, processOutput_eq output imgWidth imgHeight more, fun hnone => ?_,
    (greedy_drops_iff hproper).symm, fun hdistinct hright => ?_⟩
  · rw [(greedy_drops_iff hproper).mpr hnone]
    exact greedy_rightlyKept hproper
  · exact (greedy_drops_iff hproper).mp
      (eq_greedy_of_rightlyKept hdistinct (greedy_sublist _) hright)

def unitBox (x y prob : ℚ) : Box := ⟨x, y, x + 1, y + 1, some "Andamio", prob⟩

def placed (x y prob : ℕ → ℚ) (i : ℕ) : ℚ :=
  if i / numPredictions = 0 then x (i % numPredictions) + 1 / 2
  else if i / numPredictions = 1 then y (i % numPredictions) + 1 / 2
  else if i / numPredictions < 4 then 1
  else prob (i % numPredictions)

theorem foldl_stays {items : List (ℕ × ℚ)} {accum : ℕ × ℚ} (h : ∀ item ∈ items, item.2 ≤ accum.2) :
    items.foldl (fun accum item => if item.2 > accum.2 then item else accum) accum = accum := by
  induction items with
  | nil => rfl
  | cons item items ih =>
    obtain ⟨hfirst, hrest⟩ := List.forall_mem_cons.mp h
    rw [List.foldl_cons, if_neg (not_lt.mpr hfirst)]
    exact ih hrest

theorem bestClass_equal {score : ℚ} (h : 0 < score) :
    bestClass ((List.range yoloClasses.length).map fun col => (col, score)) = (0, score) := by
  have hlength : yoloClasses.length = 58 + 1 := by rfl
  rw [hlength, List.range_succ_eq_map, List.map_cons, bestClass, List.foldl_cons, if_pos h]
  refine foldl_stays fun item hitem => ?_
  obtain ⟨col, _, hcol⟩ := List.mem_map.mp hitem
  rw [← hcol]

theorem prediction_placed {x y prob : ℕ → ℚ} {index : ℕ} (h : index < numPredictions)
    (hprob : 0 < prob index) :
    prediction (placed x y prob) 640 640 index = unitBox (x index) (y index) (prob index) := by
  have hpos : 0 < numPredictions := Nat.zero_lt_of_lt h
  have hrow : ∀ row, (numPredictions * row + index) / numPredictions = row ∧
      (numPredictions * row + index) % numPredictions = index := by
    intro row
    rw [Nat.mul_add_div hpos, Nat.div_eq_of_lt h, Nat.mul_add_mod, Nat.mod_eq_of_lt h]
    exact ⟨rfl, rfl⟩
  have hx : placed x y prob index = x index + 1 / 2 := by
    simp [placed, Nat.div_eq_of_lt h, Nat.mod_eq_of_lt h]
  have hy : placed x y prob (numPredictions + index) = y index + 1 / 2 := by
    have hone := hrow 1
    rw [Nat.mul_one] at hone
    simp [placed, hone]
  have hsize : ∀ row, 2 ≤ row → row < 4 → placed x y prob (row * numPredictions + index) = 1 := by
    intro row hlow hhigh
    have hside := hrow row
    rw [Nat.mul_comm] at hside
    have hzero : row ≠ 0 := by omega
    have hone : row ≠ 1 := by omega
    simp [placed, hside, hzero, hone, hhigh]
  have hscore : ∀ col, placed x y prob (numPredictions * (col + 4) + index) = prob index := by
    intro col
    simp [placed, hrow (col + 4)]
  have hlabel : yoloClasses[0]? = some "Andamio" := rfl
  simp only [prediction, hx, hy, hsize 2 le_rfl (by decide), hsize 3 (by decide) (by decide), hscore,
    bestClass_equal hprob, hlabel, unitBox, Letterboxing.modelInputSize, Box.mk.injEq, and_true]
  refine ⟨?_, ?_, ?_, ?_⟩ <;> ring

theorem mem_placed {x y prob : ℕ → ℚ} (hprob : ∀ index, 0 < prob index) {b : Box} :
    b ∈ decoded (placed x y prob) 640 640 ↔
      ∃ index < numPredictions, unitBox (x index) (y index) (prob index) = b := by
  simp only [decoded, List.mem_map, List.mem_range]
  constructor
  · rintro ⟨index, hindex, hb⟩
    exact ⟨index, hindex, (prediction_placed hindex (hprob index)).symm.trans hb⟩
  · rintro ⟨index, hindex, hb⟩
    exact ⟨index, hindex, (prediction_placed hindex (hprob index)).trans hb⟩

theorem unitBox_proper (x y prob : ℚ) : (rectangle (unitBox x y prob)).Proper :=
  ⟨lt_add_one x, lt_add_one y⟩

theorem placed_proper {x y prob : ℕ → ℚ} (hprob : ∀ index, 0 < prob index) :
    ∀ b ∈ decoded (placed x y prob) 640 640, (rectangle b).Proper := by
  intro b hb
  obtain ⟨index, _, hb⟩ := (mem_placed hprob).mp hb
  exact hb ▸ unitBox_proper _ _ _

theorem disjoint_right (y y' prob prob' : ℚ) :
    Disjoint (rectangle (unitBox 0 y prob)).region (rectangle (unitBox 2 y' prob')).region := by
  refine Set.disjoint_left.mpr fun point hnear hfar => ?_
  have hright : point.1 ≤ 0 + 1 := hnear.1.2
  have hleft : 2 ≤ point.1 := hfar.1.1
  linarith

/-- Two boxes side by side, the others on the first one, each less probable than
the one before it. -/
def beside (index : ℕ) : ℚ := if index = 1 then 2 else 0

def besidePair : ℕ → ℚ := placed beside (fun _ => 0) fun index => 1 / (index + 1)

theorem besidePair_prob (index : ℕ) : (0 : ℚ) < 1 / (index + 1) := by positivity

theorem besidePair_distinct :
    (decoded besidePair 640 640).Pairwise fun a b => a.prob ≠ b.prob := by
  have hprob : ∀ index < numPredictions,
      (prediction besidePair 640 640 index).prob = 1 / (index + 1) := by
    intro index hindex
    rw [besidePair, prediction_placed hindex (besidePair_prob index)]
    rfl
  rw [decoded, List.pairwise_map]
  refine List.nodup_range.imp_of_mem fun {a b} ha hb hne heq => hne ?_
  rw [hprob a (List.mem_range.mp ha), hprob b (List.mem_range.mp hb)] at heq
  have hsum : (a : ℚ) + 1 = b + 1 := by simpa using heq
  exact_mod_cast add_right_cancel hsum

theorem besidePair_noneMisjudged : NoneMisjudged (decoded besidePair 640 640) := by
  have hheight : ∀ b ∈ greedy overlaps (ranked (decoded besidePair 640 640)),
      b.y1 = 0 ∧ b.y2 = 0 + 1 := by
    intro b hb
    have hdecoded := (ranked_perm _).mem_iff.mp ((greedy_sublist _).subset hb)
    obtain ⟨index, _, hb⟩ := (mem_placed besidePair_prob).mp hdecoded
    exact hb ▸ ⟨rfl, rfl⟩
  refine List.pairwise_of_forall_mem_list fun a ha b hb hmisjudged => ?_
  have hapart : min a.y2 b.y2 < max a.y1 b.y1 := hmisjudged.1.2
  rw [(hheight a ha).1, (hheight a ha).2, (hheight b hb).1, (hheight b hb).2] at hapart
  norm_num at hapart

theorem beside_right :
    ∃ kept, processOutput (numPredictions + 0) besidePair 640 640 = some kept ∧
      RightlyKept (decoded besidePair 640 640) kept ∧ unitBox 2 0 (1 / 2) ∈ kept ∧
      kept = greedy overlaps (ranked (decoded besidePair 640 640)) ∧
      NoneMisjudged (decoded besidePair 640 640) := by
  obtain ⟨kept, houtput, hright, hsame, hneeded⟩ :=
    processOutput_right_iff besidePair 640 640 0 (placed_proper besidePair_prob)
  have hkept := hright besidePair_noneMisjudged
  have hmem : unitBox 2 0 (1 / 2) ∈ decoded besidePair 640 640 := by
    refine (mem_placed besidePair_prob).mpr ⟨1, by decide, ?_⟩
    norm_num [beside]
  refine ⟨kept, houtput, hkept, hkept.alone _ hmem fun c hc hne => ?_,
    hsame.mp besidePair_noneMisjudged, hneeded besidePair_distinct hkept⟩
  obtain ⟨index, _, hc⟩ := (mem_placed besidePair_prob).mp hc
  by_cases hindex : index = 1
  · refine absurd ?_ hne
    rw [← hc, hindex]
    norm_num [beside]
  · rw [← hc, beside, if_neg hindex]
    exact disjoint_right _ _ _ _

/-- The second box one unit apart in both axes, the others on the first one. -/
def diagonalPair : ℕ → ℚ :=
  placed beside beside fun index =>
    if index = 0 then 9 / 10 else if index = 1 then 8 / 10 else 1 / 10

theorem diagonalPair_prob (index : ℕ) :
    (0 : ℚ) < if index = 0 then 9 / 10 else if index = 1 then 8 / 10 else 1 / 10 := by
  split_ifs <;> norm_num

theorem mem_diagonalPair {b : Box} (h : b ∈ decoded diagonalPair 640 640) :
    b = unitBox 0 0 (9 / 10) ∨ b = unitBox 2 2 (8 / 10) ∨ b = unitBox 0 0 (1 / 10) := by
  obtain ⟨index, _, hb⟩ := (mem_placed diagonalPair_prob).mp h
  rw [← hb, beside]
  split_ifs with hone hzero
  · omega
  · exact .inr (.inl rfl)
  · exact .inl rfl
  · exact .inr (.inr rfl)

theorem drops_far : drops (unitBox 0 0 (9 / 10)) (unitBox 2 2 (8 / 10)) = true := by
  have hunion : union (unitBox 0 0 (9 / 10)) (unitBox 2 2 (8 / 10)) = 1 := by
    norm_num [union, intersection, unitBox]
  rw [drops_of_union (by rw [hunion]; exact one_ne_zero), hunion]
  norm_num [intersection, unitBox]

theorem far_notMem : unitBox 2 2 (8 / 10) ∉ greedy drops (ranked (decoded diagonalPair 640 640)) := by
  intro hkept
  have hbest := (ranked_perm (decoded diagonalPair 640 640)).mem_iff.mpr
    ((mem_placed diagonalPair_prob).mpr ⟨0, by decide, rfl⟩)
  have hsorted := ranked_sorted (decoded diagonalPair 640 640)
  have hmem := fun b => (ranked_perm (decoded diagonalPair 640 640)).mem_iff (a := b)
  generalize ranked (decoded diagonalPair 640 640) = boxes at *
  cases boxes with
  | nil => cases hbest
  | cons a rest =>
    have hfirst : a = unitBox 0 0 (9 / 10) := by
      have hprob : 9 / 10 ≤ a.prob := by
        cases List.mem_cons.mp hbest with
        | inl h => rw [← h]; rfl
        | inr h => exact (List.pairwise_cons.mp hsorted).1 _ h
      rcases mem_diagonalPair ((hmem a).mp List.mem_cons_self) with h | h | h
      · exact h
      · rw [h] at hprob
        norm_num [unitBox] at hprob
      · rw [h] at hprob
        norm_num [unitBox] at hprob
    rw [greedy_cons, hfirst] at hkept
    cases List.mem_cons.mp hkept with
    | inl h => norm_num [unitBox] at h
    | inr h =>
      have hkeep := (mem_remaining.mp ((greedy_sublist _).subset h)).2
      rw [drops_far] at hkeep
      cases hkeep

/-- A box that has no point in common with any other is dropped. -/
theorem lone_box_dropped :
    ∃ kept, processOutput numPredictions diagonalPair 640 640 = some kept ∧
      unitBox 2 2 (8 / 10) ∈ decoded diagonalPair 640 640 ∧
      (∀ c ∈ decoded diagonalPair 640 640, c ≠ unitBox 2 2 (8 / 10) →
        Disjoint (rectangle c).region (rectangle (unitBox 2 2 (8 / 10))).region) ∧
      unitBox 2 2 (8 / 10) ∉ kept ∧ ¬ RightlyKept (decoded diagonalPair 640 640) kept := by
  have hmem : unitBox 2 2 (8 / 10) ∈ decoded diagonalPair 640 640 :=
    (mem_placed diagonalPair_prob).mpr ⟨1, by decide, rfl⟩
  have halone : ∀ c ∈ decoded diagonalPair 640 640, c ≠ unitBox 2 2 (8 / 10) →
      Disjoint (rectangle c).region (rectangle (unitBox 2 2 (8 / 10))).region := by
    intro c hc hne
    rcases mem_diagonalPair hc with h | h | h
    · rw [h]
      exact disjoint_right _ _ _ _
    · exact absurd h hne
    · rw [h]
      exact disjoint_right _ _ _ _
  refine ⟨_, processOutput_eq diagonalPair 640 640 0, hmem, halone, far_notMem, fun h => ?_⟩
  exact far_notMem (h.alone _ hmem halone)

end Cherum.SuppressedBoxes
