import Cherum.FixedDecimal
import Cherum.PythonJson

/-! Python's `float(value)` on JSON values, and the format `.6f`. A number is read
from a text in two steps: the characters beyond ASCII that Unicode 13 has as blanks
and as decimal digits become ASCII ones, then the text is read by its grammar. -/

namespace Cherum.PythonFloat
open FixedDecimal PythonJson

def signText : Bool → List Char
  | false => []
  | true => ['-']

/-- `f"{x:.6f}"`. -/
def format6f : PyFloat → List Char
  | .nan => "nan".toList
  | .inf negative => signText negative ++ "inf".toList
  | .finite negative magnitude => signText negative ++ fixedText 6 magnitude

def isSpace (c : Char) : Bool :=
  c.toNat ∈ [133, 160, 5760, 8192, 8193, 8194, 8195, 8196, 8197, 8198, 8199, 8200, 8201, 8202,
    8232, 8233, 8239, 8287, 12288]

/-- Where the runs of ten decimal digits begin. -/
def zeros : List ℕ :=
  [48, 1632, 1776, 1984, 2406, 2534, 2662, 2790, 2918, 3046, 3174, 3302, 3430, 3558, 3664, 3792,
    3872, 4160, 4240, 6112, 6160, 6470, 6608, 6784, 6800, 6992, 7088, 7232, 7248, 42528, 43216,
    43264, 43472, 43504, 43600, 44016, 65296, 66720, 68912, 69734, 69872, 69942, 70096, 70384,
    70736, 70864, 71248, 71360, 71472, 71904, 72016, 72784, 73040, 73120, 92768, 93008, 120782,
    120792, 120802, 120812, 120822, 123200, 123632, 125264, 130032]

def decimal? (c : Char) : Option Char :=
  (zeros.find? fun start => start ≤ c.toNat ∧ c.toNat < start + 10).map fun start =>
    Nat.digitChar (c.toNat - start)

/-- `_PyUnicode_TransformDecimalAndSpaceToASCII` for one character; no number has
a question mark. -/
def toAscii (c : Char) : Char :=
  if c.toNat < 127 then c else if isSpace c then ' ' else (decimal? c).getD '?'

/-- `Py_ISSPACE`, which leaves out the separators 28 to 31. -/
def isBlank (c : Char) : Bool := 9 ≤ c.toNat ∧ c.toNat ≤ 13 ∨ c = ' '

def strip (text : List Char) : List Char := (text.dropWhile isBlank).rdropWhile isBlank

/-- An underscore may stand between two digits, and is dropped. -/
def dropUnderscores (previous : Char) : List Char → Option (List Char)
  | [] => if previous = '_' then none else some []
  | c :: rest =>
    if c = '_' then if previous.isDigit then dropUnderscores c rest else none
    else if previous = '_' ∧ ¬ c.isDigit then none
    else (dropUnderscores c rest).map (c :: ·)

def digits? (text : List Char) : Option ℕ :=
  if text ≠ [] ∧ text.all Char.isDigit then some (Nat.ofDigitChars 10 text 0) else none

def exponent? : List Char → Option ℤ
  | [] => some 0
  | e :: text =>
    if e = 'e' ∨ e = 'E' then
      match text with
      | '-' :: digits => (digits? digits).map fun n => -(n : ℤ)
      | '+' :: digits => (digits? digits).map fun n => (n : ℤ)
      | digits => (digits? digits).map fun n => (n : ℤ)
    else none

def number? (text : List Char) : Option ℚ≥0 :=
  let whole := text.takeWhile Char.isDigit
  let rest := text.dropWhile Char.isDigit
  let fraction := if rest.head? = some '.' then rest.tail.takeWhile Char.isDigit else []
  let after := if rest.head? = some '.' then rest.tail.dropWhile Char.isDigit else rest
  if whole = [] ∧ fraction = [] then none
  else (exponent? after).map fun e => decimalValue whole fraction * (10 : ℕ) ^ e

def unsigned? (texts : Texts) (negative : Bool) (text : List Char) : Option PyFloat :=
  let lower := text.map Char.toLower
  if lower = "inf".toList ∨ lower = "infinity".toList then some (.inf negative)
  else if lower = "nan".toList then some .nan
  else (number? text).map (texts.read negative)

def signed? (texts : Texts) : List Char → Option PyFloat
  | '-' :: text => unsigned? texts true text
  | '+' :: text => unsigned? texts false text
  | text => unsigned? texts false text

def numeral? (text : List Char) : Option (List Char) :=
  dropUnderscores ' ' (strip (text.map toAscii))

def floatText (texts : Texts) (text : List Char) : Option PyFloat :=
  (numeral? text).bind (signed? texts)

/-- `float(value)`. -/
def pyFloat (texts : Texts) : Json → Except PyError PyFloat
  | .bool value => .ok (.finite false (if value then 1 else 0))
  | .int value =>
    if value.natAbs < overflowBound then .ok (texts.read (value < 0) value.natAbs)
    else .error .overflowError
  | .float value => .ok value
  | .str value =>
    match floatText texts value.toList with
    | some x => .ok x
    | none => .error .valueError
  | _ => .error .typeError

def Plain (c : Char) : Prop := c.toNat < 127 ∧ isBlank c = false ∧ c ≠ '_'

instance : DecidablePred Plain :=
  fun c => inferInstanceAs (Decidable (c.toNat < 127 ∧ isBlank c = false ∧ c ≠ '_'))

theorem isDigit_plain {c : Char} (h : c.isDigit = true) : Plain c := by
  obtain ⟨hlow, hhigh⟩ := Bool.and_eq_true_iff.mp h
  have hlow' : 48 ≤ c.toNat := of_decide_eq_true hlow
  have hhigh' : c.toNat ≤ 57 := of_decide_eq_true hhigh
  have hne : ∀ d : Char, d.isDigit = false → c ≠ d := by
    intro d hd hc
    rw [hc, hd] at h
    cases h
  refine ⟨by omega, ?_, hne '_' rfl⟩
  rw [isBlank, decide_eq_false_iff_not, not_or]
  exact ⟨by omega, hne ' ' rfl⟩

theorem toAscii_plain {text : List Char} (h : ∀ c ∈ text, Plain c) : text.map toAscii = text :=
  (List.map_congr_left fun c hc => if_pos (h c hc).1).trans (List.map_id' text)

theorem strip_plain {text : List Char} (h : ∀ c ∈ text, Plain c) : strip text = text := by
  have hblank : ∀ c ∈ text, ¬ isBlank c = true := fun c hc => by simp [(h c hc).2.1]
  have hfront : text.dropWhile isBlank = text := by
    cases text with
    | nil => rfl
    | cons c rest => exact List.dropWhile_cons_of_neg (hblank c List.mem_cons_self)
  unfold strip
  rw [hfront, List.rdropWhile_eq_self_iff]
  exact fun hne => hblank _ (List.getLast_mem hne)

theorem dropUnderscores_plain {text : List Char} (h : ∀ c ∈ text, Plain c) {previous : Char}
    (hprevious : previous ≠ '_') : dropUnderscores previous text = some text := by
  induction text generalizing previous with
  | nil => simp [dropUnderscores, hprevious]
  | cons c rest ih =>
    obtain ⟨⟨_, _, hc⟩, hrest⟩ := List.forall_mem_cons.mp h
    simp [dropUnderscores, hc, hprevious, ih hrest hc]

theorem numeral?_plain {text : List Char} (h : ∀ c ∈ text, Plain c) :
    numeral? text = some text := by
  rw [numeral?, toAscii_plain h, strip_plain h, dropUnderscores_plain h (by decide)]

theorem number?_fixed {whole fraction : List Char} (hne : whole ≠ [])
    (hwhole : ∀ c ∈ whole, c.isDigit = true) (hfraction : ∀ c ∈ fraction, c.isDigit = true) :
    number? (whole ++ '.' :: fraction) = some (decimalValue whole fraction) := by
  have hpoint : ¬ Char.isDigit '.' = true := by decide
  have htake : (whole ++ '.' :: fraction).takeWhile Char.isDigit = whole := by
    rw [List.takeWhile_append_of_pos hwhole, List.takeWhile_cons_of_neg hpoint, List.append_nil]
  have hdrop : (whole ++ '.' :: fraction).dropWhile Char.isDigit = '.' :: fraction := by
    rw [List.dropWhile_append_of_pos hwhole, List.dropWhile_cons_of_neg hpoint]
  have htake' : fraction.takeWhile Char.isDigit = fraction :=
    List.takeWhile_eq_self_iff.mpr hfraction
  have hdrop' : fraction.dropWhile Char.isDigit = [] :=
    List.dropWhile_eq_nil_iff.mpr hfraction
  simp [number?, htake, hdrop, htake', hdrop', hne, exponent?]

theorem unsigned?_fixed (texts : Texts) (negative : Bool) {whole fraction : List Char}
    (hne : whole ≠ []) (hwhole : ∀ c ∈ whole, c.isDigit = true) (hfraction : ∀ c ∈ fraction, c.isDigit = true) :
    unsigned? texts negative (whole ++ '.' :: fraction) =
      some (texts.read negative (decimalValue whole fraction)) := by
  have hpoint : '.' ∈ (whole ++ '.' :: fraction).map Char.toLower :=
    List.mem_map.mpr ⟨'.', List.mem_append_right _ List.mem_cons_self, rfl⟩
  have hother : ∀ name : List Char, '.' ∉ name →
      (whole ++ '.' :: fraction).map Char.toLower ≠ name :=
    fun name hname heq => hname (heq ▸ hpoint)
  have hinf := hother "inf".toList (by decide)
  have hinfinity := hother "infinity".toList (by decide)
  have hnan := hother "nan".toList (by decide)
  simp only [unsigned?, hinf, hinfinity, hnan, or_self, if_false,
    number?_fixed hne hwhole hfraction, Option.map_some]

theorem fixedText_parts (places : ℕ) (x : ℚ≥0) :
    ∃ whole fraction, fixedText places x = whole ++ '.' :: fraction ∧ whole ≠ [] ∧
      (∀ c ∈ whole, c.isDigit = true) ∧ (∀ c ∈ fraction, c.isDigit = true) ∧
      decimalValue whole fraction = rounded places x :=
  ⟨_, _, rfl, Nat.toDigits_ne_nil,
    fun _ hc => Nat.isDigit_of_mem_toDigits (by decide) le_rfl hc,
    fun _ hc => lastDigits_isDigit hc, decimalValue_units _ _⟩

theorem floatText_format6f (texts : Texts) (negative : Bool) (magnitude : ℚ≥0) :
    floatText texts (format6f (.finite negative magnitude)) =
      some (texts.read negative (rounded 6 magnitude)) := by
  obtain ⟨whole, fraction, htext, hne, hwhole, hfraction, hvalue⟩ := fixedText_parts 6 magnitude
  have hsignPlain : Plain '-' := by decide
  have hpointPlain : Plain '.' := by decide
  have hplain : ∀ c ∈ signText negative ++ (whole ++ '.' :: fraction), Plain c := by
    have hsign : ∀ c ∈ signText negative, Plain c := by
      cases negative with
      | false => simp [signText]
      | true => simpa [signText] using hsignPlain
    intro c hc
    simp only [List.mem_append, List.mem_cons] at hc
    rcases hc with hc | hc | hc | hc
    · exact hsign c hc
    · exact isDigit_plain (hwhole c hc)
    · exact hc ▸ hpointPlain
    · exact isDigit_plain (hfraction c hc)
  have hread := unsigned?_fixed texts negative hne hwhole hfraction
  rw [floatText, format6f, htext, numeral?_plain hplain, Option.bind_some, ← hvalue, ← hread]
  cases negative with
  | true => rfl
  | false =>
    obtain ⟨c, rest, hwhole'⟩ := List.exists_cons_of_ne_nil hne
    have hc : c.isDigit = true := hwhole c (hwhole' ▸ List.mem_cons_self)
    have hminus : c ≠ '-' := fun h => absurd (h ▸ hc) (by decide)
    have hplus : c ≠ '+' := fun h => absurd (h ▸ hc) (by decide)
    rw [hwhole']
    simp only [signText, List.nil_append, List.cons_append]
    unfold signed?
    split
    · next heq => exact absurd (List.cons.inj heq).1 hminus
    · next heq => exact absurd (List.cons.inj heq).1 hplus
    · rfl

theorem format6f_length {size : ℕ} (negative : Bool) {magnitude : ℚ≥0}
    (h : Below size magnitude) :
    (format6f (.finite negative magnitude)).length ≤ size + 9 := by
  have hfixed : (fixedText 6 magnitude).length ≤ size + 6 + 2 := fixedText_length h
  have hsign : (signText negative).length ≤ 1 := by
    cases negative <;> decide
  simp only [format6f, List.length_append]
  omega

end Cherum.PythonFloat
