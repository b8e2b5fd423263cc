import Mathlib

/-! video.js: where `processFrame` puts the video in the square that the model
sees, and how `drawBoxes` brings the detections back onto the canvas, in exact
rational arithmetic. The line width and the font are constants and left out;
the style a call uses is an argument of it. -/

namespace Cherum.Letterboxing

def modelInputSize : ℚ := 640

structure Size where
  width : ℚ
  height : ℚ
  width_pos : 0 < width
  height_pos : 0 < height

structure Placement where
  targetWidth : ℚ
  targetHeight : ℚ
  offsetX : ℚ
  offsetY : ℚ
  deriving DecidableEq

def placement (video : Size) : Placement :=
  let videoAspectRatio := video.width / video.height
  let targetWidth :=
    if videoAspectRatio > 1 then modelInputSize else modelInputSize * videoAspectRatio
  let targetHeight :=
    if videoAspectRatio > 1 then modelInputSize / videoAspectRatio else modelInputSize
  { targetWidth := targetWidth
    targetHeight := targetHeight
    offsetX := (modelInputSize - targetWidth) / 2
    offsetY := (modelInputSize - targetHeight) / 2 }

structure Box where
  x1 : ℚ
  y1 : ℚ
  x2 : ℚ
  y2 : ℚ
  classIndex : Option ℚ

/-- The loop over the model's output, six numbers at a time. -/
def validBoxes : List ℚ → List Box
  | x1 :: y1 :: x2 :: y2 :: score :: classIndex :: rest =>
    if score > 0 then ⟨x1, y1, x2, y2, some classIndex⟩ :: validBoxes rest else validBoxes rest
  | [x1, y1, x2, y2, score] => if score > 0 then [⟨x1, y1, x2, y2, none⟩] else []
  | _ => []

/-- `yolo_classes`, `classColors` and `measureText`. -/
structure Labels where
  classes : List String
  colors : List String
  measureText : Option String → ℚ

def entry (names : List String) (index : Option ℚ) : Option String :=
  index.bind fun i => if i.den = 1 ∧ 0 ≤ i.num then names[i.num.toNat]? else none

structure Rectangle where
  x : ℚ
  y : ℚ
  width : ℚ
  height : ℚ
  deriving DecidableEq

inductive Command
  | drawImage (area : Rectangle)
  | clearRect (area : Rectangle)
  | strokeRect (style : Option String) (area : Rectangle)
  | fillRect (style : Option String) (area : Rectangle)
  | fillText (style : Option String) (text : Option String) (x y : ℚ)

def drawBox (labels : Labels) (canvas : Size) (p : Placement) (box : Box) : List Command :=
  let scaleX := canvas.width / p.targetWidth
  let scaleY := canvas.height / p.targetHeight
  let label := entry labels.classes box.classIndex
  let color := entry labels.colors box.classIndex
  let adjustedX1 := (box.x1 - p.offsetX) * scaleX
  let adjustedY1 := (box.y1 - p.offsetY) * scaleY
  let adjustedX2 := (box.x2 - p.offsetX) * scaleX
  let adjustedY2 := (box.y2 - p.offsetY) * scaleY
  let boxWidth := adjustedX2 - adjustedX1
  let boxHeight := adjustedY2 - adjustedY1
  let textWidth := labels.measureText label
  [.strokeRect color ⟨adjustedX1, adjustedY1, boxWidth, boxHeight⟩,
    .fillRect color ⟨adjustedX1, adjustedY1 - 25, textWidth + 10, 25⟩,
    .fillText (some "#FFFFFF") label (adjustedX1 + 5) (adjustedY1 - 7)]

def drawBoxes (labels : Labels) (canvas : Size) (p : Placement) (boxes : List Box) : List Command :=
  .clearRect ⟨0, 0, canvas.width, canvas.height⟩ :: boxes.flatMap (drawBox labels canvas p)

/-- The square that the model sees, and the canvas over the video. -/
structure Frame where
  offscreen : List Command
  canvas : List Command

/-- `processFrame` on a ready video, for the output of the model; the colour of
the square is never set. -/
def processFrame (labels : Labels) (canvas video : Size) (output : List ℚ) : Frame :=
  let p := placement video
  { offscreen := [.fillRect none ⟨0, 0, modelInputSize, modelInputSize⟩,
      .drawImage ⟨p.offsetX, p.offsetY, p.targetWidth, p.targetHeight⟩]
    canvas := drawBoxes labels canvas p (validBoxes output) }

/-- The placement keeps the shape of the video, centred in the square and as
large as it can be. -/
structure Letterboxed (video : Size) (p : Placement) : Prop where
  width_pos : 0 < p.targetWidth
  height_pos : 0 < p.targetHeight
  aspect : p.targetWidth / p.targetHeight = video.width / video.height
  left : 0 ≤ p.offsetX
  top : 0 ≤ p.offsetY
  right : p.offsetX + p.targetWidth ≤ modelInputSize
  bottom : p.offsetY + p.targetHeight ≤ modelInputSize
  centredX : p.offsetX = modelInputSize - (p.offsetX + p.targetWidth)
  centredY : p.offsetY = modelInputSize - (p.offsetY + p.targetHeight)
  touches : p.offsetX = 0 ∧ p.offsetX + p.targetWidth = modelInputSize ∨
    p.offsetY = 0 ∧ p.offsetY + p.targetHeight = modelInputSize

theorem letterboxed_of {video : Size} {width height : ℚ} (hwidth : 0 < width) (hheight : 0 < height)
    (haspect : width / height = video.width / video.height)
    (hright : width ≤ modelInputSize) (hbottom : height ≤ modelInputSize)
    (hfull : width = modelInputSize ∨ height = modelInputSize) :
    Letterboxed video
      ⟨width, height, (modelInputSize - width) / 2, (modelInputSize - height) / 2⟩ where
  width_pos := hwidth
  height_pos := hheight
  aspect := haspect
  left := by dsimp only; linarith
  top := by dsimp only; linarith
  right := by dsimp only; linarith
  bottom := by dsimp only; linarith
  centredX := by ring
  centredY := by ring
  touches := by
    cases hfull with
    | inl h => exact .inl ⟨by rw [h]; norm_num, by rw [h]; norm_num⟩
    | inr h => exact .inr ⟨by rw [h]; norm_num, by rw [h]; norm_num⟩

theorem placement_letterboxed (video : Size) : Letterboxed video (placement video) := by
  have hratio : 0 < video.width / video.height := div_pos video.width_pos video.height_pos
  have hside : (0 : ℚ) < modelInputSize := by norm_num [modelInputSize]
  by_cases hlandscape : video.width / video.height > 1
  · have hplacement : placement video =
        ⟨modelInputSize, modelInputSize / (video.width / video.height),
          (modelInputSize - modelInputSize) / 2,
          (modelInputSize - modelInputSize / (video.width / video.height)) / 2⟩ := by
      simp only [placement, hlandscape, if_true]
    rw [hplacement]
    refine letterboxed_of hside (div_pos hside hratio) ?_ le_rfl ?_ (.inl rfl)
    · exact div_div_cancel₀ hside.ne'
    · exact div_le_self hside.le hlandscape.le
  · have hplacement : placement video =
        ⟨modelInputSize * (video.width / video.height), modelInputSize,
          (modelInputSize - modelInputSize * (video.width / video.height)) / 2,
          (modelInputSize - modelInputSize) / 2⟩ := by
      simp only [placement, hlandscape, if_false]
    rw [hplacement]
    refine letterboxed_of (mul_pos hside hratio) hside ?_ ?_ le_rfl (.inr rfl)
    · exact mul_div_cancel_left₀ _ hside.ne'
    · exact mul_le_of_le_one_right hside.le (not_lt.mp hlandscape)

/-- A box in the video frame, by relative corners, with the class found there. -/
structure RelativeBox where
  x1 : ℚ
  y1 : ℚ
  x2 : ℚ
  y2 : ℚ
  classIndex : ℚ
  x1_mem : 0 ≤ x1 ∧ x1 ≤ 1
  y1_mem : 0 ≤ y1 ∧ y1 ≤ 1
  x2_mem : 0 ≤ x2 ∧ x2 ≤ 1
  y2_mem : 0 ≤ y2 ∧ y2 ≤ 1

/-- The detection whose model coordinates are the image of the box. -/
def RelativeBox.image (p : Placement) (r : RelativeBox) : Box where
  x1 := p.offsetX + r.x1 * p.targetWidth
  y1 := p.offsetY + r.y1 * p.targetHeight
  x2 := p.offsetX + r.x2 * p.targetWidth
  y2 := p.offsetY + r.y2 * p.targetHeight
  classIndex := some r.classIndex

/-- The rectangle with the same relative corners on the canvas. -/
def RelativeBox.onCanvas (canvas : Size) (r : RelativeBox) : Rectangle where
  x := r.x1 * canvas.width
  y := r.y1 * canvas.height
  width := r.x2 * canvas.width - r.x1 * canvas.width
  height := r.y2 * canvas.height - r.y1 * canvas.height

structure Within (canvas : Size) (area : Rectangle) : Prop where
  left : 0 ≤ area.x ∧ area.x ≤ canvas.width
  top : 0 ≤ area.y ∧ area.y ≤ canvas.height
  right : 0 ≤ area.x + area.width ∧ area.x + area.width ≤ canvas.width
  bottom : 0 ≤ area.y + area.height ∧ area.y + area.height ≤ canvas.height

def strokes (commands : List Command) : List Rectangle :=
  commands.filterMap fun command =>
    match command with
    | .strokeRect _ area => some area
    | _ => none

def placements (commands : List Command) : List Placement :=
  commands.filterMap fun command =>
    match command with
    | .drawImage area => some ⟨area.width, area.height, area.x, area.y⟩
    | _ => none

theorem unplace {target : ℚ} (h : 0 < target) (offset canvas u : ℚ) :
    (offset + u * target - offset) * (canvas / target) = u * canvas := by
  rw [add_sub_cancel_left, mul_assoc, mul_div_cancel₀ _ h.ne']

theorem strokes_drawBox (labels : Labels) (canvas : Size) {video : Size} {p : Placement}
    (h : Letterboxed video p) (r : RelativeBox) :
    strokes (drawBox labels canvas p (r.image p)) = [r.onCanvas canvas] := by
  simp only [strokes, drawBox, RelativeBox.image, unplace h.width_pos, unplace h.height_pos,
    List.filterMap_cons, List.filterMap_nil]
  rfl

theorem strokes_drawBoxes (labels : Labels) (canvas : Size) {video : Size} {p : Placement}
    (h : Letterboxed video p) (boxes : List RelativeBox) :
    strokes (drawBoxes labels canvas p (boxes.map (RelativeBox.image p))) =
      boxes.map (RelativeBox.onCanvas canvas) := by
  have hboxes : strokes ((boxes.map (RelativeBox.image p)).flatMap (drawBox labels canvas p)) =
      boxes.map (RelativeBox.onCanvas canvas) := by
    induction boxes with
    | nil => rfl
    | cons r boxes ih =>
      have hfirst := strokes_drawBox labels canvas h r
      unfold strokes at hfirst ih ⊢
      rw [List.map_cons, List.flatMap_cons, List.filterMap_append, hfirst, ih,
        List.singleton_append, List.map_cons]
  exact hboxes

theorem onCanvas_within (canvas : Size) (r : RelativeBox) : Within canvas (r.onCanvas canvas) := by
  have hscale : ∀ {u side : ℚ}, 0 ≤ u ∧ u ≤ 1 → 0 < side → 0 ≤ u * side ∧ u * side ≤ side :=
    fun hu hside => ⟨mul_nonneg hu.1 hside.le, mul_le_of_le_one_left hside.le hu.2⟩
  refine ⟨hscale r.x1_mem canvas.width_pos, hscale r.y1_mem canvas.height_pos, ?_, ?_⟩
  · simp only [RelativeBox.onCanvas, add_sub_cancel]
    exact hscale r.x2_mem canvas.width_pos
  · simp only [RelativeBox.onCanvas, add_sub_cancel]
    exact hscale r.y2_mem canvas.height_pos

def reported (p : Placement) (detection : RelativeBox × ℚ) : List ℚ :=
  let box := detection.1.image p
  [box.x1, box.y1, box.x2, box.y2, detection.2, detection.1.classIndex]

theorem validBoxes_reported (p : Placement) (detections : List (RelativeBox × ℚ)) :
    validBoxes (detections.flatMap (reported p)) =
      ((detections.filter fun d => 0 < d.2).map Prod.fst).map (RelativeBox.image p) := by
  induction detections with
  | nil => rfl
  | cons d detections ih =>
    rw [List.flatMap_cons]
    by_cases hscore : 0 < d.2
    · simp only [reported, List.cons_append, List.nil_append, validBoxes, hscore, if_true, ih,
        List.filter_cons, decide_true, List.map_cons]
      rfl
    · simp only [reported, List.cons_append, List.nil_append, validBoxes, hscore, if_false, ih,
        List.filter_cons, decide_false, Bool.false_eq_true]

theorem strokes_processFrame (labels : Labels) (canvas video : Size)
    (detections : List (RelativeBox × ℚ)) :
    strokes (processFrame labels canvas video
      (detections.flatMap (reported (placement video)))).canvas =
        ((detections.filter fun d => 0 < d.2).map Prod.fst).map (RelativeBox.onCanvas canvas) := by
  simp only [processFrame, validBoxes_reported]
  exact strokes_drawBoxes labels canvas (placement_letterboxed video) _

/-- Every frame puts the video once into the model's square, letterboxed, and the
detections placed with it are drawn at their own place in the video, scaled to the
canvas: by `drawBoxes` all that it gets, by the frame those of positive score. -/
theorem letterboxing_inverse (labels : Labels) (canvas video : Size) :
    ∃ p : Placement, Letterboxed video p ∧
      (∀ output, placements (processFrame labels canvas video output).offscreen = [p]) ∧
      (∀ boxes : List RelativeBox,
        strokes (drawBoxes labels canvas p (boxes.map (RelativeBox.image p))) =
          boxes.map (RelativeBox.onCanvas canvas)) ∧
      (∀ detections : List (RelativeBox × ℚ),
        strokes (processFrame labels canvas video (detections.flatMap (reported p))).canvas =
          ((detections.filter fun d => 0 < d.2).map Prod.fst).map (RelativeBox.onCanvas canvas)) ∧
      ∀ r : RelativeBox, Within canvas (r.onCanvas canvas) :=
  ⟨placement video, placement_letterboxed video, fun _ => rfl,
    strokes_drawBoxes labels canvas (placement_letterboxed video),
    strokes_processFrame labels canvas video, onCanvas_within canvas⟩

/-- A landscape video on a portrait canvas, and a box in its right half. -/
example :
    let video : Size := ⟨1280, 720, by norm_num, by norm_num⟩
    let canvas : Size := ⟨300, 600, by norm_num, by norm_num⟩
    let box : RelativeBox :=
      ⟨1 / 2, 1 / 4, 3 / 4, 1, 0, by norm_num, by norm_num, by norm_num, by norm_num⟩
    let labels : Labels := ⟨["person"], ["#FF0000"], fun _ => 0⟩
    (placement video).offsetY = 140 ∧
      strokes (processFrame labels canvas video (reported (placement video) (box, 9 / 10))).canvas =
        [⟨150, 150, 75, 450⟩] := by
  decide +kernel

end Cherum.Letterboxing
