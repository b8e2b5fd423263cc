import Mathlib

/-! Double-quoted string literals of a language with escapes and interpolation.
A literal is read from behind its opening quote to its first unescaped quote,
and denotes bytes: those of its characters, or the one an escape stands for. A
text read back as itself is one in which nothing is special. -/

namespace Cherum.StringLiteral

def bytes (text : List Char) : List UInt8 := text.flatMap String.utf8EncodeChar

def hexDigit? (c : Char) : Option ℕ :=
  if c.isDigit then some (c.toNat - '0'.toNat)
  else if 'a' ≤ c ∧ c ≤ 'f' then some (c.toNat - 'a'.toNat + 10)
  else if 'A' ≤ c ∧ c ≤ 'F' then some (c.toNat - 'A'.toNat + 10)
  else none

def hexByte? (a b : Char) : Option UInt8 :=
  (hexDigit? a).bind fun high => (hexDigit? b).map fun low => UInt8.ofNat (16 * high + low)

def escaped? : Char → Option UInt8
  | 'n' => some 10
  | 'r' => some 13
  | 't' => some 9
  | '"' => some 34
  | '\\' => some 92
  | _ => none

/-- The bytes a literal denotes and the text after its closing quote. There are
none if the literal does not end, has an unknown escape, or holds an expression. -/
def readLiteral : List Char → Option (List UInt8 × List Char)
  | [] => none
  | '"' :: rest => some ([], rest)
  | '\\' :: '$' :: '\x7b' :: rest =>
    (readLiteral rest).map fun literal => (36 :: 123 :: literal.1, literal.2)
  | '\\' :: 'x' :: a :: b :: rest =>
    (hexByte? a b).bind fun byte =>
      (readLiteral rest).map fun literal => (byte :: literal.1, literal.2)
  | '\\' :: c :: rest =>
    (escaped? c).bind fun byte =>
      (readLiteral rest).map fun literal => (byte :: literal.1, literal.2)
  | '\\' :: [] => none
  | '$' :: '\x7b' :: _ => none
  | c :: rest =>
    (readLiteral rest).map fun literal => (String.utf8EncodeChar c ++ literal.1, literal.2)

/-- No quote, no backslash and no interpolation. -/
structure Plain (text : List Char) : Prop where
  quote : '"' ∉ text
  backslash : '\\' ∉ text
  interpolation : ¬ ['$', '\x7b'] <:+: text

theorem plain_nil : Plain [] :=
  ⟨List.not_mem_nil, List.not_mem_nil, fun h => absurd h.length_le (by decide)⟩

theorem plain_cons {c : Char} {text : List Char} :
    Plain (c :: text) ↔ c ≠ '"' ∧ c ≠ '\\' ∧ ¬ (c = '$' ∧ text.head? = some '\x7b') ∧ Plain text := by
  have hinside : ['$', '\x7b'] <:+: c :: text ↔
      c = '$' ∧ text.head? = some '\x7b' ∨ ['$', '\x7b'] <:+: text := by
    have hstart : ['\x7b'] <+: text ↔ text.head? = some '\x7b' := by
      cases text with
      | nil => simp
      | cons d text =>
        rw [List.cons_prefix_cons, List.head?_cons, Option.some.injEq]
        simp only [List.nil_prefix, and_true]
        exact eq_comm
    rw [List.infix_cons_iff, List.cons_prefix_cons, hstart, eq_comm (a := '$')]
  constructor
  · intro h
    have hinterpolation := h.interpolation
    rw [hinside, not_or] at hinterpolation
    obtain ⟨hquote, hquote'⟩ := List.ne_and_not_mem_of_not_mem_cons h.quote
    obtain ⟨hback, hback'⟩ := List.ne_and_not_mem_of_not_mem_cons h.backslash
    exact ⟨hquote.symm, hback.symm, hinterpolation.1, hquote', hback', hinterpolation.2⟩
  · rintro ⟨hquote, hback, hinterpolation, h⟩
    refine ⟨List.not_mem_cons_of_ne_of_not_mem hquote.symm h.quote,
      List.not_mem_cons_of_ne_of_not_mem hback.symm h.backslash, ?_⟩
    rw [hinside, not_or]
    exact ⟨hinterpolation, h.interpolation⟩

theorem readLiteral_cons {c : Char} {input : List Char} (hquote : c ≠ '"') (hback : c ≠ '\\')
    (hinterpolation : ¬ (c = '$' ∧ input.head? = some '\x7b')) :
    readLiteral (c :: input) =
      (readLiteral input).map fun literal => (String.utf8EncodeChar c ++ literal.1, literal.2) := by
  rw [readLiteral]
  · exact hquote
  · exact fun _ hc _ => hback hc
  · exact fun _ _ _ hc _ => hback hc
  · exact fun _ _ hc _ => hback hc
  · exact fun hc _ => hback hc
  · rintro rest hc hinput
    exact hinterpolation ⟨hc, by rw [hinput, List.head?_cons]⟩

theorem readLiteral_plain {text rest : List Char} (h : Plain text) :
    readLiteral (text ++ '"' :: rest) = some (bytes text, rest) := by
  induction text with
  | nil => rfl
  | cons c text ih =>
    obtain ⟨hquote, hback, hinterpolation, htext⟩ := plain_cons.mp h
    have hhead : ¬ (c = '$' ∧ (text ++ '"' :: rest).head? = some '\x7b') := by
      rintro ⟨hc, hbrace⟩
      cases text with
      | nil => simp at hbrace
      | cons d text => exact hinterpolation ⟨hc, hbrace⟩
    rw [List.cons_append, readLiteral_cons hquote hback hhead, ih htext, Option.map_some]
    rfl

theorem bytes_append (first second : List Char) :
    bytes (first ++ second) = bytes first ++ bytes second := List.flatMap_append

theorem bytes_injective : Function.Injective bytes := by
  intro first second h
  have hencoded : first.utf8Encode = second.utf8Encode := congrArg List.toByteArray h
  have htexts : String.ofList first = String.ofList second := by
    rw [← String.toByteArray_inj, String.toByteArray_ofList, String.toByteArray_ofList, hencoded]
  exact String.ofList_injective htexts

theorem length_le_bytes (text : List Char) : text.length ≤ (bytes text).length := by
  induction text with
  | nil => exact le_rfl
  | cons c text ih =>
    have hc : (String.utf8EncodeChar c).length = c.utf8Size := String.length_utf8EncodeChar c
    have hpos := c.utf8Size_pos
    rw [bytes, List.flatMap_cons, List.length_append, hc, List.length_cons]
    rw [bytes] at ih
    omega

/-- What a literal is read from: as many bytes as it denotes, if the text is
plain, and more otherwise. -/
def Source (input : List Char) (value : List UInt8) (rest : List Char) : Prop :=
  ∃ text, input = text ++ '"' :: rest ∧ value.length ≤ (bytes text).length ∧
    (value.length = (bytes text).length → Plain text)

theorem Source.escape {input rest : List Char} {value : List UInt8}
    (h : Source input value rest) (consumed : List Char) (out : List UInt8)
    (hshort : out.length < consumed.length) :
    Source (consumed ++ input) (out ++ value) rest := by
  obtain ⟨text, hinput, hlength, _⟩ := h
  have hconsumed := length_le_bytes consumed
  refine ⟨consumed ++ text, by rw [hinput, List.append_assoc], ?_, fun hequal => ?_⟩
  · rw [bytes_append, List.length_append, List.length_append]
    omega
  · rw [bytes_append, List.length_append, List.length_append] at hequal
    omega

theorem Source.cons {c : Char} {input rest : List Char} {value : List UInt8}
    (h : Source input value rest) (hquote : c ≠ '"') (hback : c ≠ '\\')
    (hinterpolation : ¬ (c = '$' ∧ input.head? = some '\x7b')) :
    Source (c :: input) (String.utf8EncodeChar c ++ value) rest := by
  obtain ⟨text, hinput, hlength, hplain⟩ := h
  have hbytes : bytes (c :: text) = String.utf8EncodeChar c ++ bytes text := rfl
  refine ⟨c :: text, by rw [hinput, List.cons_append], ?_, fun hequal => ?_⟩
  · rw [hbytes, List.length_append, List.length_append]
    omega
  · rw [hbytes, List.length_append, List.length_append] at hequal
    refine plain_cons.mpr ⟨hquote, hback, fun hspecial => ?_, hplain (by omega)⟩
    refine hinterpolation ⟨hspecial.1, ?_⟩
    rw [hinput, List.head?_append, hspecial.2]
    rfl

theorem readLiteral_source {input rest : List Char} {value : List UInt8}
    (h : readLiteral input = some (value, rest)) : Source input value rest := by
  induction input using readLiteral.induct generalizing value with
  | case1 => cases h
  | case2 rest' =>
    cases h
    exact ⟨[], rfl, le_rfl, fun _ => plain_nil⟩
  | case3 input ih =>
    obtain ⟨literal, hliteral, hvalue⟩ := Option.map_eq_some_iff.mp h
    cases hvalue
    exact (ih hliteral).escape ['\\', '$', '\x7b'] [36, 123] (by decide)
  | case4 a b input ih =>
    obtain ⟨byte, _, h⟩ := Option.bind_eq_some_iff.mp h
    obtain ⟨literal, hliteral, hvalue⟩ := Option.map_eq_some_iff.mp h
    cases hvalue
    exact (ih hliteral).escape ['\\', 'x', a, b] [byte] (Nat.one_lt_succ_succ 2)
  | case5 c input _ _ ih =>
    rw [readLiteral] at h
    · obtain ⟨byte, _, h⟩ := Option.bind_eq_some_iff.mp h
      obtain ⟨literal, hliteral, hvalue⟩ := Option.map_eq_some_iff.mp h
      cases hvalue
      exact (ih hliteral).escape ['\\', c] [byte] (Nat.one_lt_succ_succ 0)
    · assumption
    · assumption
  | case6 => cases h
  | case7 => cases h
  | case8 c input hquote hdollar hhex hescape hback hinterpolation ih =>
    have hback' : c ≠ '\\' := fun hc => by
      cases input with
      | nil => exact hback hc rfl
      | cons d input => exact hescape d input hc rfl
    have hinterpolation' : ¬ (c = '$' ∧ input.head? = some '\x7b') := by
      rintro ⟨hc, hhead⟩
      obtain ⟨tail, htail⟩ := List.head?_eq_some_iff.mp hhead
      exact hinterpolation tail hc htail
    rw [readLiteral_cons hquote hback' hinterpolation'] at h
    obtain ⟨literal, hliteral, hvalue⟩ := Option.map_eq_some_iff.mp h
    cases hvalue
    exact (ih hliteral).cons hquote hback' hinterpolation'

/-- A text in quotes is read as itself, up to its own end, exactly when it is
plain. -/
theorem readLiteral_iff {text rest : List Char} :
    readLiteral (text ++ '"' :: rest) = some (bytes text, rest) ↔ Plain text := by
  refine ⟨fun h => ?_, readLiteral_plain⟩
  obtain ⟨source, hsource, _, hplain⟩ := readLiteral_source h
  rw [List.append_cancel_right hsource] at hplain ⊢
  exact hplain rfl

end Cherum.StringLiteral
