import Cherum.GreedySelection
import Cherum.Letterboxing
import Cherum.Rectangles

/-! video.js: `processOutput` decodes the predictions of the model, sorts the
boxes by probability and suppresses those that overlap a better one, in exact
rational arithmetic with JavaScript's results for a division by zero. The array
of predictions is read at the places of its entries only. -/

namespace Cherum.BoxSuppression
open GreedySelection Letterboxing Rectangles

/-- What a division of two finite numbers gives. -/
inductive JsNumber
  | nan
  | infinity (negative : Bool)
  | finite (value : ℚ)
  deriving DecidableEq

namespace JsNumber

def div (a b : ℚ) : JsNumber :=
  if b = 0 then if a = 0 then nan else infinity (a < 0) else finite (a / b)

def lt (bound : ℚ) : JsNumber → Bool
  | nan => false
  | infinity negative => negative
  | finite value => value < bound

end JsNumber

def yoloClasses : List String :=
  ["Andamio", "Animal", "Aplanadora", "Arbol", "Barril", "Block", "Cabina", "Cables", "Camion",
    "CamionDeRiego", "CamionVolquete", "Carga", "Carretilla", "Casco", "Castillo", "Cementadora",
    "Chaleco", "Charca", "Cimbra", "Colado", "Columna", "Construccion", "Contenedor", "Cubeta",
    "Descarga", "Edificio", "Escalera", "Espectacular", "Excavadora", "Excavar", "Follaje",
    "Grua", "Herramienta", "Lona", "Material", "Medir", "Monticulo", "Motoconformadora", "Muro",
    "Pala", "Polines", "Poste", "Registro", "Reja", "Residuos", "Retrete", "Riego", "Tapa",
    "Techo", "Tinaco", "Toldo", "TorreDeElectricidad", "Trabajador", "Tractor", "Tuberia",
    "Varilla", "Vehiculo", "Vigas", "Zanja"]

def numPredictions : ℕ := (640 / 32) ^ 2 * 21

structure Box where
  x1 : ℚ
  y1 : ℚ
  x2 : ℚ
  y2 : ℚ
  label : Option String
  prob : ℚ
  deriving DecidableEq

def bestClass (scores : List (ℕ × ℚ)) : ℕ × ℚ :=
  scores.foldl (fun accum item => if item.2 > accum.2 then item else accum) (0, 0)

def prediction (output : ℕ → ℚ) (imgWidth imgHeight : ℚ) (index : ℕ) : Box :=
  let best := bestClass ((List.range yoloClasses.length).map fun col =>
    (col, output (numPredictions * (col + 4) + index)))
  let xc := output index
  let yc := output (numPredictions + index)
  let w := output (2 * numPredictions + index)
  let h := output (3 * numPredictions + index)
  { x1 := (xc - w / 2) / modelInputSize * imgWidth
    y1 := (yc - h / 2) / modelInputSize * imgHeight
    x2 := (xc + w / 2) / modelInputSize * imgWidth
    y2 := (yc + h / 2) / modelInputSize * imgHeight
    label := yoloClasses[best.1]?
    prob := best.2 }

def decoded (output : ℕ → ℚ) (imgWidth imgHeight : ℚ) : List Box :=
  (List.range numPredictions).map (prediction output imgWidth imgHeight)

def intersection (box1 box2 : Box) : ℚ :=
  let x1 := max box1.x1 box2.x1
  let y1 := max box1.y1 box2.y1
  let x2 := min box1.x2 box2.x2
  let y2 := min box1.y2 box2.y2
  (x2 - x1) * (y2 - y1)

def union (box1 box2 : Box) : ℚ :=
  let box1Area := (box1.x2 - box1.x1) * (box1.y2 - box1.y1)
  let box2Area := (box2.x2 - box2.x1) * (box2.y2 - box2.y1)
  box1Area + box2Area - intersection box1 box2

def iou (box1 box2 : Box) : JsNumber := .div (intersection box1 box2) (union box1 box2)

/-- The comparison function of `sort`: `box1` may stay before `box2`. -/
def inOrder (box1 box2 : Box) : Bool := box2.prob - box1.prob ≤ 0

structure Loop where
  result : List Box
  boxes : List Box

/-- One round, `none` when the condition of the loop is false. The filter runs
over the old array, and its `boxes[0]` is that array's too. -/
def Loop.round (s : Loop) : Option Loop :=
  match s.boxes with
  | [] => none
  | first :: _ =>
    some ⟨s.result ++ [first], s.boxes.filter fun box => (iou first box).lt (7 / 10)⟩

/-- The result of the loop if it ends within so many rounds. -/
def suppress : ℕ → Loop → Option (List Box)
  | 0, s => if s.boxes.isEmpty then some s.result else none
  | fuel + 1, s =>
    match s.round with
    | none => some s.result
    | some t => suppress fuel t

def processOutput (fuel : ℕ) (output : ℕ → ℚ) (imgWidth imgHeight : ℚ) : Option (List Box) :=
  suppress fuel ⟨[], (decoded output imgWidth imgHeight).mergeSort inOrder⟩

def drops (kept box : Box) : Bool := !(iou kept box).lt (7 / 10)

theorem iou_self (box : Box) : (iou box box).lt (7 / 10) = false := by
  have hintersection : intersection box box = (box.x2 - box.x1) * (box.y2 - box.y1) := by
    simp only [intersection, max_self, min_self]
  have hunion : union box box = (box.x2 - box.x1) * (box.y2 - box.y1) := by
    simp only [union, hintersection, add_sub_cancel_right]
  rw [iou, hintersection, hunion, JsNumber.div]
  by_cases harea : (box.x2 - box.x1) * (box.y2 - box.y1) = 0
  · rw [if_pos harea, if_pos harea]
    rfl
  · rw [if_neg harea, div_self harea]
    exact decide_eq_false (by norm_num)

theorem round_cons (result : List Box) (first : Box) (rest : List Box) :
    (Loop.mk result (first :: rest)).round =
      some ⟨result ++ [first], remaining drops first rest⟩ := by
  have hfilter : (first :: rest).filter (fun box => (iou first box).lt (7 / 10)) =
      remaining drops first rest := by
    rw [List.filter_cons_of_neg (by rw [iou_self]; exact Bool.false_ne_true)]
    refine List.filter_congr fun box _ => ?_
    rw [drops, Bool.not_not]
  simp only [Loop.round, hfilter]

/-- With a round for each box the loop has ended, with the greedy selection. -/
theorem suppress_eq {fuel : ℕ} {s : Loop} (h : s.boxes.length ≤ fuel) :
    suppress fuel s = some (s.result ++ greedy drops s.boxes) := by
  induction fuel generalizing s with
  | zero =>
    have hnil : s.boxes = [] := List.eq_nil_of_length_eq_zero (Nat.le_zero.mp h)
    simp [suppress, hnil]
  | succ fuel ih =>
    obtain ⟨result, boxes⟩ := s
    cases boxes with
    | nil => simp [suppress, Loop.round]
    | cons first rest =>
      have hlength : (remaining drops first rest).length ≤ fuel :=
        (remaining_sublist first rest).length_le.trans (Nat.le_of_succ_le_succ h)
      simp only [suppress, round_cons]
      rw [ih hlength, greedy_cons, List.append_assoc, List.singleton_append]

theorem rounds_eq {n : ℕ} {s : Loop} (h : (greedy drops s.boxes).length = n) :
    (fun t => t.bind Loop.round)^[n] (some s) = some ⟨s.result ++ greedy drops s.boxes, []⟩ := by
  induction n generalizing s with
  | zero =>
    obtain ⟨result, boxes⟩ := s
    cases boxes with
    | nil => simp
    | cons first rest => simp [greedy_cons] at h
  | succ n ih =>
    obtain ⟨result, boxes⟩ := s
    cases boxes with
    | nil => simp at h
    | cons first rest =>
      rw [greedy_cons, List.length_cons, Nat.add_right_cancel_iff] at h
      rw [Function.iterate_succ_apply, Option.bind_some, round_cons, ih h, greedy_cons,
        List.append_assoc, List.singleton_append]

/-- Every round removes the box it keeps, so the loop ends after at most as
many rounds as there are boxes, one for each box that it keeps, and what it keeps
is a part of the list. -/
theorem suppression_ends (boxes : List Box) :
    (∀ result first rest, ∃ left, left.Sublist rest ∧
      (Loop.mk result (first :: rest)).round = some ⟨result ++ [first], left⟩) ∧
    ∃ kept, kept.Sublist boxes ∧
      (fun s => s.bind Loop.round)^[kept.length] (some ⟨[], boxes⟩) = some ⟨kept, []⟩ ∧
      ∀ more, suppress (boxes.length + more) ⟨[], boxes⟩ = some kept := by
  refine ⟨fun result first rest => ?_, greedy drops boxes, greedy_sublist boxes, ?_, fun more => ?_⟩
  · exact ⟨_, remaining_sublist first rest, round_cons result first rest⟩
  · exact rounds_eq rfl
  · exact suppress_eq (Nat.le_add_right _ _)

end Cherum.BoxSuppression
