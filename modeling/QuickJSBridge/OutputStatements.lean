import QuickJSBridge.StringLiterals
import QuickJSBridge.TextMarshalling

/- The output statements of J2qjsScriptEngineFactory: print of a string literal, quoted for
   ECMAScript. -/
namespace QuickJSBridge
open StringLiterals

section Factory

def latin (s : String) : JavaString := s.toList.map fun c => .ofNat c.toNat

/-- `Integer.toHexString`. -/
def toHexString (n : Nat) : JavaString := (Nat.toDigits 16 n).map fun c => .ofNat c.toNat

def unicodeEscape (ch : UInt16) : JavaString :=
  let hex := toHexString ch.toNat
  [0x5C, 0x75] ++ List.replicate (4 - hex.length) 0x30 ++ hex

/-- What `quote` appends for one character. -/
def quoteChar (ch : UInt16) : JavaString :=
  if ch = 0x5C then [0x5C, 0x5C]
  else if ch = 0x22 then [0x5C, 0x22]
  else if ch = 0x08 then [0x5C, 0x62]
  else if ch = 0x0C then [0x5C, 0x66]
  else if ch = 0x0A then [0x5C, 0x6E]
  else if ch = 0x0D then [0x5C, 0x72]
  else if ch = 0x09 then [0x5C, 0x74]
  else if ch.toNat < 0x20 then unicodeEscape ch
  else [ch]

def quote (value : JavaString) : JavaString := [0x22] ++ value.flatMap quoteChar ++ [0x22]

def getOutputStatement (toDisplay : JavaString) : JavaString :=
  latin "print(" ++ quote toDisplay ++ latin ")"

end Factory

section Quoting

/-- The characters with an escape of their own, as `quote` and ECMAScript have them. -/
theorem quoteChar_single {ch : UInt16} (special : ch = 0x5C ∨ ch = 0x22 ∨ ch = 0x08 ∨ ch = 0x0C ∨
    ch = 0x0A ∨ ch = 0x0D ∨ ch = 0x09) :
    ∃ c, quoteChar ch = [0x5C, c] ∧ singleEscape c = some ch ∧ 0x20 ≤ c.toNat := by
  rcases special with rfl | rfl | rfl | rfl | rfl | rfl | rfl
  · exact ⟨0x5C, by decide⟩
  · exact ⟨0x22, by decide⟩
  · exact ⟨0x62, by decide⟩
  · exact ⟨0x66, by decide⟩
  · exact ⟨0x6E, by decide⟩
  · exact ⟨0x72, by decide⟩
  · exact ⟨0x74, by decide⟩

def hexDigit (d : Nat) : UInt16 := if d < 10 then .ofNat (0x30 + d) else .ofNat (0x57 + d)

theorem hexValue_hexDigit : ∀ d < 16, hexValue (hexDigit d) = some d := by decide

theorem hexDigit_printable : ∀ d < 16, 0x20 ≤ (hexDigit d).toNat := by decide

theorem unicodeEscape_control : ∀ n < 0x20, unicodeEscape (.ofNat n) =
    [0x5C, 0x75, 0x30, 0x30, hexDigit (n / 16), hexDigit (n % 16)] := by decide

theorem quoteChar_control {ch : UInt16} (control : ch.toNat < 0x20) (other : ¬ (ch = 0x5C ∨
    ch = 0x22 ∨ ch = 0x08 ∨ ch = 0x0C ∨ ch = 0x0A ∨ ch = 0x0D ∨ ch = 0x09)) :
    quoteChar ch = [0x5C, 0x75, 0x30, 0x30, hexDigit (ch.toNat / 16), hexDigit (ch.toNat % 16)] := by
  simp only [not_or] at other
  obtain ⟨backslash, quote, backspace, formFeed, lineFeed, return', tab⟩ := other
  rw [quoteChar, if_neg backslash, if_neg quote, if_neg backspace, if_neg formFeed,
    if_neg lineFeed, if_neg return', if_neg tab, if_pos control]
  have digits := unicodeEscape_control ch.toNat control
  rw [UInt16.ofNat_toNat] at digits
  exact digits

theorem quoteChar_plain {ch : UInt16} (printable : 0x20 ≤ ch.toNat) (inner : ch ≠ 0x22)
    (plain : ch ≠ 0x5C) : quoteChar ch = [ch] := by
  have apart : ∀ c : UInt16, c.toNat < 0x20 → ch ≠ c := by
    rintro c control rfl
    omega
  rw [quoteChar, if_neg plain, if_neg inner, if_neg (apart 0x08 (by decide)),
    if_neg (apart 0x0C (by decide)), if_neg (apart 0x0A (by decide)),
    if_neg (apart 0x0D (by decide)), if_neg (apart 0x09 (by decide)), if_neg (by omega)]

theorem quoteChar_cases (ch : UInt16) :
    (ch = 0x5C ∨ ch = 0x22 ∨ ch = 0x08 ∨ ch = 0x0C ∨ ch = 0x0A ∨ ch = 0x0D ∨ ch = 0x09) ∨
    (ch.toNat < 0x20 ∧ ¬ (ch = 0x5C ∨ ch = 0x22 ∨ ch = 0x08 ∨ ch = 0x0C ∨ ch = 0x0A ∨ ch = 0x0D ∨
      ch = 0x09)) ∨ (0x20 ≤ ch.toNat ∧ ch ≠ 0x22 ∧ ch ≠ 0x5C) := by
  by_cases special : ch = 0x5C ∨ ch = 0x22 ∨ ch = 0x08 ∨ ch = 0x0C ∨ ch = 0x0A ∨ ch = 0x0D ∨ ch = 0x09
  · exact Or.inl special
  · rcases Nat.lt_or_ge ch.toNat 0x20 with control | printable
    · exact Or.inr (Or.inl ⟨control, special⟩)
    · simp only [not_or] at special
      exact Or.inr (Or.inr ⟨printable, special.2.1, special.1⟩)

theorem literalBody_quoteChar (ch : UInt16) (fuel : Nat) (p : JavaString) :
    literalBody (fuel + 1) (quoteChar ch ++ p) =
      (literalBody fuel p).map fun (later, rest) => (ch :: later, rest) := by
  rcases quoteChar_cases ch with special | ⟨control, other⟩ | ⟨printable, inner, plain⟩
  · obtain ⟨c, text, single, -⟩ := quoteChar_single special
    rw [text]
    exact literalBody_escape (escapeSequence_single single)
  · have high : ch.toNat / 16 < 16 := by omega
    have low : ch.toNat % 16 < 16 := by omega
    have unit : ((0 * 16 + 0) * 16 + ch.toNat / 16) * 16 + ch.toNat % 16 = ch.toNat := by omega
    have zero : hexValue 0x30 = some 0 := by decide
    have reads := @escapeSequence_unicode p 0x30 0x30 _ _ 0 0 _ _ zero zero
      (hexValue_hexDigit _ high) (hexValue_hexDigit _ low)
    rw [unit, UInt16.ofNat_toNat] at reads
    rw [quoteChar_control control other]
    exact literalBody_escape reads
  · have line : ch ≠ 0x0A ∧ ch ≠ 0x0D := by
      constructor
      · rintro rfl
        exact absurd printable (by decide)
      · rintro rfl
        exact absurd printable (by decide)
    rw [quoteChar_plain printable inner plain]
    exact literalBody_plain inner plain line

theorem literalBody_quoted (s : JavaString) (fuel : Nat) (enough : s.length < fuel) (p : JavaString) :
    literalBody fuel (s.flatMap quoteChar ++ 0x22 :: p) = some (s, p) := by
  induction s generalizing fuel with
  | nil =>
    cases fuel with
    | zero => omega
    | succ fuel => exact literalBody_quote
  | cons ch s ih =>
    cases fuel with
    | zero => omega
    | succ fuel =>
      rw [List.length_cons] at enough
      rw [List.flatMap_cons, List.append_assoc, literalBody_quoteChar, ih fuel (by omega)]
      rfl

theorem quoteChar_length (ch : UInt16) : 1 ≤ (quoteChar ch).length := by
  rcases quoteChar_cases ch with special | ⟨control, other⟩ | ⟨printable, inner, plain⟩
  · obtain ⟨c, text, -, -⟩ := quoteChar_single special
    rw [text]
    exact Nat.le_add_left 1 1
  · rw [quoteChar_control control other]
    exact Nat.le_add_left 1 5
  · rw [quoteChar_plain printable inner plain]
    exact Nat.le_refl 1

theorem quoted_length (s : JavaString) : s.length ≤ (s.flatMap quoteChar).length := by
  induction s with
  | nil => exact Nat.le_refl 0
  | cons ch s ih =>
    have one := quoteChar_length ch
    rw [List.flatMap_cons, List.length_append, List.length_cons]
    omega

theorem literal_quote (s p : JavaString) : literal (quote s ++ p) = some (s, p) := by
  have whole : quote s ++ p = 0x22 :: (s.flatMap quoteChar ++ 0x22 :: p) := by
    simp only [quote, List.append_assoc, List.cons_append, List.nil_append]
  have enough : s.length < (s.flatMap quoteChar ++ 0x22 :: p).length := by
    have long := quoted_length s
    rw [List.length_append, List.length_cons]
    omega
  rw [whole]
  exact literalBody_quoted s _ enough p

theorem quoteChar_printable (ch : UInt16) : ∀ u ∈ quoteChar ch, 0x20 ≤ u.toNat := by
  intro u member
  rcases quoteChar_cases ch with special | ⟨control, other⟩ | ⟨printable, inner, plain⟩
  · obtain ⟨c, text, -, printable⟩ := quoteChar_single special
    rw [text] at member
    rcases List.mem_pair.1 member with rfl | rfl
    · decide
    · exact printable
  · rw [quoteChar_control control other] at member
    simp only [List.mem_cons, List.not_mem_nil, or_false] at member
    rcases member with rfl | rfl | rfl | rfl | rfl | rfl
    · decide
    · decide
    · decide
    · decide
    · exact hexDigit_printable _ (by omega)
    · exact hexDigit_printable _ (by omega)
  · rw [quoteChar_plain printable inner plain] at member
    rw [List.mem_singleton.1 member]
    exact printable

theorem quote_printable (s : JavaString) : ∀ u ∈ quote s, 0x20 ≤ u.toNat := by
  intro u member
  rw [quote, List.mem_append, List.mem_append] at member
  rcases member with (start | inner) | last
  · rw [List.mem_singleton.1 start]
    decide
  · obtain ⟨ch, -, there⟩ := List.mem_flatMap.1 inner
    exact quoteChar_printable ch u there
  · rw [List.mem_singleton.1 last]
    decide

/-- The string printed by a statement that is a call of `print` on one literal. -/
def printedBy (statement : JavaString) : Option JavaString :=
  if statement.take 6 = latin "print(" then
    match literal (statement.drop 6) with
    | none => none
    | some (value, rest) => if rest = latin ")" then some value else none
  else none

theorem printedBy_literal {text value : JavaString}
    (reads : literal (text ++ latin ")") = some (value, latin ")")) :
    printedBy (latin "print(" ++ text ++ latin ")") = some value := by
  have start : (latin "print(" ++ text ++ latin ")").take 6 = latin "print(" := rfl
  have after : (latin "print(" ++ text ++ latin ")").drop 6 = text ++ latin ")" := rfl
  rw [printedBy, if_pos start, after, reads]
  exact if_pos rfl

/-- A quoted string is one literal without control characters, it denotes the string, no other
    string is quoted so, and the output statement prints it. -/
theorem output_statement_faithful (s : JavaString) :
    literal (quote s) = some (s, []) ∧ (∀ u ∈ quote s, 0x20 ≤ u.toNat) ∧
    (∀ t, quote t = quote s → t = s) ∧ printedBy (getOutputStatement s) = some s := by
  have reads : ∀ t, literal (quote t) = some (t, []) := by
    intro t
    have whole := literal_quote t []
    rwa [List.append_nil] at whole
  refine ⟨reads s, quote_printable s, ?_, printedBy_literal (literal_quote s _)⟩
  intro t same
  have both := reads t
  rw [same, reads s] at both
  cases both
  rfl

end Quoting
end QuickJSBridge
