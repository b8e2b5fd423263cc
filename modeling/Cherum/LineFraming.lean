import Mathlib

/-! Lines in a stream of symbols, as a writer frames them with a delimiter and
as a reader with a limit on the length of a line takes them off again. A reader
that sees only the beginning of the stream takes the same line as one that sees
all of it, or has to wait for more. -/

namespace Cherum.LineFraming

variable {α : Type*} (nl : α)

def frame (text : List α) : List α := text ++ [nl]

def frames (texts : List (List α)) : List α := texts.flatMap (frame nl)

@[simp] theorem frames_nil : frames nl [] = [] := rfl

@[simp] theorem frames_cons (text : List α) (texts : List (List α)) :
    frames nl (text :: texts) = frame nl text ++ frames nl texts := rfl

theorem frames_append (first second : List (List α)) :
    frames nl (first ++ second) = frames nl first ++ frames nl second :=
  List.flatMap_append

variable [DecidableEq α]

/-- The symbols up to the first delimiter, at most `limit` of them, and what
follows; `none` when more input is needed to tell. -/
def nextLine? : ℕ → List α → Option (List α × List α)
  | 0, rest => some ([], rest)
  | _ + 1, [] => none
  | limit + 1, c :: rest =>
    if c = nl then some ([c], rest)
    else (nextLine? limit rest).map fun line => (c :: line.1, line.2)

/-- One `readline` of a stream whose end is known. -/
def readline (limit : ℕ) (text : List α) : List α × List α :=
  (nextLine? nl limit text).getD (text, [])

def readLines (limit : ℕ) : ℕ → List α → List (List α)
  | 0, _ => []
  | calls + 1, text =>
    (readline nl limit text).1 :: readLines limit calls (readline nl limit text).2

variable {nl}
variable {text more line rest : List α} {limit : ℕ}

theorem nextLine?_frame (hnl : nl ∉ text) (hlength : text.length < limit) :
    nextLine? nl limit (frame nl text ++ rest) = some (frame nl text, rest) := by
  induction text generalizing limit with
  | nil =>
    cases limit with
    | zero => simp at hlength
    | succ limit => simp [frame, nextLine?]
  | cons c text ih =>
    cases limit with
    | zero => simp at hlength
    | succ limit =>
      have hc : c ≠ nl := fun h => hnl (h ▸ List.mem_cons_self)
      have htail := ih (fun h => hnl (List.mem_cons_of_mem c h)) (Nat.lt_of_succ_lt_succ hlength)
      simp only [frame, List.cons_append] at htail ⊢
      simp only [nextLine?, hc, if_false, htail, Option.map_some]

/-- A line longer than the limit comes off in pieces. -/
theorem nextLine?_long (hnl : nl ∉ text) (hlength : limit ≤ text.length) :
    nextLine? nl limit (text ++ rest) = some (text.take limit, text.drop limit ++ rest) := by
  induction text generalizing limit with
  | nil =>
    have hzero : limit = 0 := Nat.le_zero.mp hlength
    simp [hzero, nextLine?]
  | cons c text ih =>
    cases limit with
    | zero => simp [nextLine?]
    | succ limit =>
      have hc : c ≠ nl := fun h => hnl (h ▸ List.mem_cons_self)
      have htail := ih (fun h => hnl (List.mem_cons_of_mem c h)) (Nat.le_of_succ_le_succ hlength)
      simp [nextLine?, hc, htail]

theorem nextLine?_short (hnl : nl ∉ text) (hlength : text.length < limit) :
    nextLine? nl limit text = none := by
  induction text generalizing limit with
  | nil =>
    cases limit with
    | zero => simp at hlength
    | succ limit => rfl
  | cons c text ih =>
    cases limit with
    | zero => simp at hlength
    | succ limit =>
      have hc : c ≠ nl := fun h => hnl (h ▸ List.mem_cons_self)
      have htail := ih (fun h => hnl (List.mem_cons_of_mem c h)) (Nat.lt_of_succ_lt_succ hlength)
      simp [nextLine?, hc, htail]

theorem nextLine?_append (h : nextLine? nl limit text = some (line, rest)) :
    nextLine? nl limit (text ++ more) = some (line, rest ++ more) := by
  induction text generalizing limit line with
  | nil =>
    cases limit with
    | zero =>
      simp only [nextLine?, Option.some.injEq, Prod.mk.injEq] at h
      simp [nextLine?, ← h.1, ← h.2]
    | succ limit => simp [nextLine?] at h
  | cons c text ih =>
    cases limit with
    | zero =>
      simp only [nextLine?, Option.some.injEq, Prod.mk.injEq] at h
      simp [nextLine?, ← h.1, ← h.2]
    | succ limit =>
      by_cases hc : c = nl
      · simp only [nextLine?, hc, if_true, Option.some.injEq, Prod.mk.injEq] at h
        simp [nextLine?, hc, ← h.1, ← h.2]
      · simp only [nextLine?, hc, if_false, Option.map_eq_some_iff] at h
        obtain ⟨⟨front, back⟩, htail, hpair⟩ := h
        simp only [Prod.mk.injEq] at hpair
        have hmore := ih (htail.trans (by rw [hpair.2]))
        simp [nextLine?, hc, hmore, hpair.1]

theorem nextLine?_ne_nil (h : nextLine? nl (limit + 1) text = some (line, rest)) : line ≠ [] := by
  cases text with
  | nil => cases h
  | cons c text =>
    simp only [nextLine?] at h
    split at h
    · cases h
      exact List.cons_ne_nil _ _
    · obtain ⟨_, _, hpair⟩ := Option.map_eq_some_iff.mp h
      cases hpair
      exact List.cons_ne_nil _ _

theorem readline_nil : readline nl limit [] = ([], []) := by
  cases limit <;> rfl

theorem readline_frame (hnl : nl ∉ text) (hlength : text.length < limit) :
    readline nl limit (frame nl text ++ rest) = (frame nl text, rest) := by
  unfold readline
  rw [nextLine?_frame hnl hlength]
  rfl

theorem readLines_nil (calls : ℕ) : readLines nl limit calls [] = List.replicate calls [] := by
  induction calls with
  | zero => rfl
  | succ calls ih => rw [readLines, readline_nil, ih, List.replicate_succ]

theorem readLines_frames {texts : List (List α)}
    (htexts : ∀ text ∈ texts, nl ∉ text ∧ text.length < limit) (calls : ℕ) :
    readLines nl limit (texts.length + calls) (frames nl texts) =
      texts.map (frame nl) ++ List.replicate calls [] := by
  induction texts with
  | nil =>
    rw [List.length_nil, Nat.zero_add, frames_nil, readLines_nil]
    rfl
  | cons text texts ih =>
    obtain ⟨⟨hnl, hlength⟩, hrest⟩ := List.forall_mem_cons.mp htexts
    have hcount : (text :: texts).length + calls = texts.length + calls + 1 := by
      rw [List.length_cons]
      omega
    rw [hcount, frames_cons, readLines, readline_frame hnl hlength, ih hrest]
    rfl

end Cherum.LineFraming
