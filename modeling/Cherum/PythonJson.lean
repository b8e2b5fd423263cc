import Cherum.FixedDecimal

/-! Python's JSON values with the operations a program applies to them
unchecked: truth value, subscript, `in`, `get`, each with the exception it can
raise, `str`, and the text `json.dumps` writes with its default separators and
`ensure_ascii`. Floating-point numbers are exact magnitudes with a sign; their
`repr`, the `str` of a container and the rounding of a number to a double are
parameters. -/

namespace Cherum.PythonJson
open FixedDecimal

inductive PyError
  | keyError
  | typeError
  | attributeError
  | valueError
  | overflowError
  | jsonDecodeError
  | connectionError
  | brokenPipeError
  | runtimeError
  deriving DecidableEq, Repr

inductive PyFloat
  | nan
  | inf (negative : Bool)
  | finite (negative : Bool) (magnitude : ℚ≥0)
  deriving DecidableEq

/-- From here on a number rounds to no finite double. -/
def overflowBound : ℕ := 2 ^ 1024 - 2 ^ 970

/-- The double that a number is read as: the nearest one, ties to even. -/
def nearestDouble (negative : Bool) (x : ℚ≥0) : PyFloat :=
  if x < overflowBound then .finite negative (roundedBinary x) else .inf negative

/-- A JSON value as `json.loads` builds it; an object keeps its keys in order. -/
inductive Json
  | null
  | bool (value : Bool)
  | int (value : ℤ)
  | float (value : PyFloat)
  | str (value : String)
  | arr (items : List Json)
  | obj (fields : List (String × Json))

namespace Json

def truthy : Json → Bool
  | null => false
  | bool value => value
  | int value => value != 0
  | float (.finite _ magnitude) => magnitude != 0
  | float _ => true
  | str value => value != ""
  | arr items => !items.isEmpty
  | obj fields => !fields.isEmpty

def isStr (text : String) : Json → Bool
  | str value => value == text
  | _ => false

def getItem (key : String) : Json → Except PyError Json
  | obj fields =>
    match fields.lookup key with
    | some value => .ok value
    | none => .error .keyError
  | _ => .error .typeError

/-- `value.get(key, default)`: only dictionaries have the method. -/
def get (value : Json) (key : String) (default : Json) : Except PyError Json :=
  match value with
  | obj fields => .ok ((fields.lookup key).getD default)
  | _ => .error .attributeError

theorem getItem_head (key : String) (value : Json) (fields : List (String × Json)) :
    (obj ((key, value) :: fields)).getItem key = .ok value := by
  simp [getItem]

theorem getItem_tail {key other : String} (h : key ≠ other) (value : Json)
    (fields : List (String × Json)) :
    (obj ((other, value) :: fields)).getItem key = (obj fields).getItem key := by
  have hne : (key == other) = false := beq_eq_false_iff_ne.mpr h
  simp only [getItem, List.lookup_cons, hne]

/-- `key in value`: a key, an element or a part of the text. -/
def contains (key : String) : Json → Except PyError Bool
  | obj fields => .ok (fields.lookup key).isSome
  | arr items => .ok (items.any (isStr key))
  | str value => .ok (decide (key.toList <:+: value.toList))
  | _ => .error .typeError

end Json

@[simp] theorem ok_bind {α β : Type} (a : α) (f : α → Except PyError β) :
    (Except.ok a >>= f) = f a := rfl

theorem bind_eq_ok {α β : Type} {x : Except PyError α} {f : α → Except PyError β} {b : β} :
    x >>= f = .ok b ↔ ∃ a, x = .ok a ∧ f a = .ok b := by
  cases x with
  | error e => simp [bind, Except.bind]
  | ok a => simp [bind, Except.bind]

/-- The characters from the blank to the tilde, which need no escape of their own. -/
def Printable (c : Char) : Prop := 32 ≤ c.toNat ∧ c.toNat ≤ 126

instance : DecidablePred Printable :=
  fun c => inferInstanceAs (Decidable (32 ≤ c.toNat ∧ c.toNat ≤ 126))

def AllPrintable (text : List Char) : Prop := ∀ c ∈ text, Printable c

instance (text : List Char) : Decidable (AllPrintable text) := List.decidableBAll Printable text

/-- Texts left open: `float.__repr__` on finite numbers (17 significant digits,
a sign, a point and an exponent at most), `str` of a list or dictionary, and what
a number becomes when its text is read: `nearestDouble`, or the number itself
where reading is taken to be exact. -/
structure Texts where
  float : PyFloat → List Char
  container : Json → String
  read : Bool → ℚ≥0 → PyFloat
  float_printable : ∀ x, AllPrintable (float x)
  float_short : ∀ x, (float x).length ≤ 24

/-- For runs in which no float and no container is written. -/
def noTexts : Texts :=
  ⟨fun _ => [], fun _ => "", nearestDouble, fun _ _ hc => absurd hc List.not_mem_nil,
    fun _ => Nat.zero_le _⟩

def hex4 (n : ℕ) : List Char :=
  [Nat.digitChar (n / 4096 % 16), Nat.digitChar (n / 256 % 16),
    Nat.digitChar (n / 16 % 16), Nat.digitChar (n % 16)]

def escapeChar (c : Char) : List Char :=
  if c = '"' then ['\\', '"']
  else if c = '\\' then ['\\', '\\']
  else if c = '\n' then ['\\', 'n']
  else if c = '\r' then ['\\', 'r']
  else if c = '\t' then ['\\', 't']
  else if c = Char.ofNat 12 then ['\\', 'f']
  else if c = Char.ofNat 8 then ['\\', 'b']
  else if Printable c then [c]
  else if c.toNat < 65536 then '\\' :: 'u' :: hex4 c.toNat
  else '\\' :: 'u' :: (hex4 (55296 + (c.toNat - 65536) / 1024) ++
    '\\' :: 'u' :: hex4 (56320 + (c.toNat - 65536) % 1024))

def dumpsStr (text : String) : List Char :=
  '"' :: (text.toList.flatMap escapeChar ++ ['"'])

def natText (n : ℕ) : List Char := Nat.toDigits 10 n

def intText : ℤ → List Char
  | .ofNat n => natText n
  | .negSucc n => '-' :: natText (n + 1)

def dumpsFloat (texts : Texts) : PyFloat → List Char
  | .nan => "NaN".toList
  | .inf false => "Infinity".toList
  | .inf true => "-Infinity".toList
  | x => texts.float x

mutual

def dumps (texts : Texts) : Json → List Char
  | .null => "null".toList
  | .bool true => "true".toList
  | .bool false => "false".toList
  | .int value => intText value
  | .float value => dumpsFloat texts value
  | .str value => dumpsStr value
  | .arr [] => "[]".toList
  | .arr (item :: items) => '[' :: (dumps texts item ++ dumpsItems texts items)
  | .obj [] => "\x7b\x7d".toList
  | .obj ((key, value) :: fields) =>
    '\x7b' :: (dumpsStr key ++ ": ".toList ++ dumps texts value ++ dumpsFields texts fields)

def dumpsItems (texts : Texts) : List Json → List Char
  | [] => [']']
  | item :: items => ", ".toList ++ dumps texts item ++ dumpsItems texts items

def dumpsFields (texts : Texts) : List (String × Json) → List Char
  | [] => ['\x7d']
  | (key, value) :: fields =>
    ", ".toList ++ dumpsStr key ++ ": ".toList ++ dumps texts value ++ dumpsFields texts fields

end

def pyStr (texts : Texts) : Json → String
  | .null => "None"
  | .bool true => "True"
  | .bool false => "False"
  | .int value => String.ofList (intText value)
  | .float .nan => "nan"
  | .float (.inf false) => "inf"
  | .float (.inf true) => "-inf"
  | .float value => String.ofList (texts.float value)
  | .str value => value
  | value => texts.container value

theorem allPrintable_append {first second : List Char} :
    AllPrintable (first ++ second) ↔ AllPrintable first ∧ AllPrintable second := by
  simp only [AllPrintable, List.mem_append, or_imp, forall_and]

theorem allPrintable_cons {c : Char} {text : List Char} :
    AllPrintable (c :: text) ↔ Printable c ∧ AllPrintable text := by
  simp only [AllPrintable, List.forall_mem_cons]

theorem hex4_printable (n : ℕ) : AllPrintable (hex4 n) := by
  have hdigit : ∀ m < 16, Printable (Nat.digitChar m) := by decide
  have hmod : ∀ m, Printable (Nat.digitChar (m % 16)) :=
    fun m => hdigit _ (Nat.mod_lt m (by decide))
  simp [hex4, AllPrintable, hmod]

theorem escapeChar_printable (c : Char) : AllPrintable (escapeChar c) := by
  have hslash : Printable '\\' ∧ Printable 'u' := by decide
  have hpair : ∀ m n, AllPrintable ('\\' :: 'u' :: (hex4 m ++ '\\' :: 'u' :: hex4 n)) := by
    intro m n
    simp only [allPrintable_cons, allPrintable_append, hslash, hex4_printable, and_self]
  unfold escapeChar
  -- the seven characters with an escape of two printable characters
  iterate 7 refine iteInduction (fun _ => by decide) fun _ => ?_
  refine iteInduction (fun h => ?_) fun _ => ?_
  · simpa [AllPrintable] using h
  · refine iteInduction (fun _ => ?_) fun _ => hpair _ _
    simp only [allPrintable_cons, hslash, hex4_printable, and_self]

theorem dumpsStr_printable (text : String) : AllPrintable (dumpsStr text) := by
  have hquote : AllPrintable ['"'] := by decide
  have hbody : AllPrintable (text.toList.flatMap escapeChar) := by
    intro c hc
    obtain ⟨d, _, hd⟩ := List.mem_flatMap.mp hc
    exact escapeChar_printable d c hd
  rw [dumpsStr, ← List.singleton_append, allPrintable_append, allPrintable_append]
  exact ⟨hquote, hbody, hquote⟩

theorem isDigit_printable {c : Char} (h : c.isDigit = true) : Printable c := by
  obtain ⟨hlow, hhigh⟩ := Bool.and_eq_true_iff.mp h
  have hlow' : 48 ≤ c.toNat := of_decide_eq_true hlow
  have hhigh' : c.toNat ≤ 57 := of_decide_eq_true hhigh
  unfold Printable
  omega

theorem natText_printable (n : ℕ) : AllPrintable (natText n) :=
  fun _ hc => isDigit_printable (Nat.isDigit_of_mem_toDigits (by decide) le_rfl hc)

theorem intText_printable (n : ℤ) : AllPrintable (intText n) := by
  cases n with
  | ofNat n => exact natText_printable n
  | negSucc n => exact allPrintable_cons.mpr ⟨by decide, natText_printable (n + 1)⟩

variable (texts : Texts)

theorem dumpsFloat_printable (x : PyFloat) : AllPrintable (dumpsFloat texts x) := by
  cases x with
  | nan =>
    have hnan : AllPrintable "NaN".toList := by decide
    exact hnan
  | inf negative =>
    have hinf : AllPrintable "Infinity".toList ∧ AllPrintable "-Infinity".toList := by decide
    cases negative with
    | false => exact hinf.1
    | true => exact hinf.2
  | finite negative magnitude => exact texts.float_printable _

mutual

theorem dumps_printable : (value : Json) → AllPrintable (dumps texts value)
  | .null => by rw [dumps]; decide
  | .bool true => by rw [dumps]; decide
  | .bool false => by rw [dumps]; decide
  | .int value => by rw [dumps]; exact intText_printable value
  | .float value => by rw [dumps]; exact dumpsFloat_printable texts value
  | .str value => by rw [dumps]; exact dumpsStr_printable value
  | .arr [] => by rw [dumps]; decide
  | .arr (item :: items) => by
    rw [dumps, allPrintable_cons, allPrintable_append]
    exact ⟨by decide, dumps_printable item, dumpsItems_printable items⟩
  | .obj [] => by rw [dumps]; decide
  | .obj ((key, value) :: fields) => by
    rw [dumps, allPrintable_cons]
    simp only [allPrintable_append]
    exact ⟨by decide, ⟨⟨dumpsStr_printable key, by decide⟩, dumps_printable value⟩,
      dumpsFields_printable fields⟩

theorem dumpsItems_printable : (items : List Json) → AllPrintable (dumpsItems texts items)
  | [] => by rw [dumpsItems]; decide
  | item :: items => by
    rw [dumpsItems]
    simp only [allPrintable_append]
    exact ⟨⟨by decide, dumps_printable item⟩, dumpsItems_printable items⟩

theorem dumpsFields_printable :
    (fields : List (String × Json)) → AllPrintable (dumpsFields texts fields)
  | [] => by rw [dumpsFields]; decide
  | (key, value) :: fields => by
    rw [dumpsFields]
    simp only [allPrintable_append]
    exact ⟨⟨⟨⟨by decide, dumpsStr_printable key⟩, by decide⟩, dumps_printable value⟩,
      dumpsFields_printable fields⟩

end

end Cherum.PythonJson
