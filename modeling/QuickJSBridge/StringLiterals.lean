import Mathlib.Data.List.Basic

/- String literals of ECMAScript as code units: what a double-quoted literal may contain, where
   it ends, and the string it denotes. Nothing here knows who writes the literals. -/
namespace StringLiterals

abbrev Units := List UInt16

def isDigit (c : UInt16) : Bool := 0x30 ≤ c.toNat && c.toNat ≤ 0x39

def hexValue (c : UInt16) : Option Nat :=
  if isDigit c then some (c.toNat - 0x30)
  else if 0x41 ≤ c.toNat ∧ c.toNat ≤ 0x46 then some (c.toNat - 0x37)
  else if 0x61 ≤ c.toNat ∧ c.toNat ≤ 0x66 then some (c.toNat - 0x57)
  else none

def hexDigits : Nat → Nat → Units → Option (Nat × Units)
  | 0, value, p => some (value, p)
  | _ + 1, _, [] => none
  | n + 1, value, c :: p =>
    match hexValue c with
    | none => none
    | some d => hexDigits n (value * 16 + d) p

def unitsOf (codePoint : Nat) : Units :=
  if codePoint < 0x10000 then [.ofNat codePoint]
  else [.ofNat ((codePoint - 0x10000) / 0x400 + 0xD800), .ofNat ((codePoint - 0x10000) % 0x400 + 0xDC00)]

def bracedDigits : Nat → Units → Option (Nat × Units)
  | _, [] => none
  | value, c :: p =>
    if c = 0x7D then some (value, p)
    else
      match hexValue c with
      | none => none
      | some d => if 0x10FFFF < value * 16 + d then none else bracedDigits (value * 16 + d) p

/-- What stands after `u`. -/
def unicodeSequence : Units → Option (Units × Units)
  | 0x7B :: c :: p =>
    (hexValue c).bind fun d => (bracedDigits d p).map fun (codePoint, next) => (unitsOf codePoint, next)
  | p => (hexDigits 4 0 p).map fun (unit, next) => ([.ofNat unit], next)

/-- `SingleEscapeCharacter`, and the unit each stands for. -/
def singleEscape (c : UInt16) : Option UInt16 :=
  if c = 0x22 ∨ c = 0x27 ∨ c = 0x5C then some c
  else if c = 0x62 then some 0x08
  else if c = 0x66 then some 0x0C
  else if c = 0x6E then some 0x0A
  else if c = 0x72 then some 0x0D
  else if c = 0x74 then some 0x09
  else if c = 0x76 then some 0x0B
  else none

def nullEscape : Units → Option (Units × Units)
  | [] => some ([0], [])
  | c :: p => if isDigit c then none else some ([0], c :: p)

def skipLineFeed : Units → Units
  | 0x0A :: p => p
  | p => p

def escapeSequence : Units → Option (Units × Units)
  | [] => none
  | c :: p =>
    match singleEscape c with
    | some unit => some ([unit], p)
    | none =>
      if c = 0x75 then unicodeSequence p
      else if c = 0x78 then (hexDigits 2 0 p).map fun (unit, next) => ([.ofNat unit], next)
      else if c = 0x30 then nullEscape p
      else if isDigit c then none
      else if c = 0x0D then some ([], skipLineFeed p)
      -- LineContinuation
      else if c = 0x0A ∨ c = 0x2028 ∨ c = 0x2029 then some ([], p)
      else some ([c], p)

/-- The string value of the characters before a closing quote, and what follows it. Each round
    takes at least one unit, so a fuel of the number of units is enough. -/
def literalBody : Nat → Units → Option (Units × Units)
  | 0, _ => none
  | _ + 1, [] => none
  | fuel + 1, c :: p =>
    if c = 0x22 then some ([], p)
    else if c = 0x5C then
      (escapeSequence p).bind fun (value, next) =>
        (literalBody fuel next).map fun (later, rest) => (value ++ later, rest)
    else if c = 0x0A ∨ c = 0x0D then none
    else (literalBody fuel p).map fun (later, rest) => (c :: later, rest)

/-- A double-quoted literal at the start of a text: its string value and what follows. -/
def literal : Units → Option (Units × Units)
  | 0x22 :: p => literalBody p.length p
  | _ => none

section Rounds
variable {fuel : Nat} {p : Units}

theorem literalBody_quote : literalBody (fuel + 1) (0x22 :: p) = some ([], p) := rfl

theorem literalBody_plain {c : UInt16} (within : c ≠ 0x22) (plain : c ≠ 0x5C)
    (line : c ≠ 0x0A ∧ c ≠ 0x0D) : literalBody (fuel + 1) (c :: p) =
      (literalBody fuel p).map fun (later, rest) => (c :: later, rest) := by
  rw [literalBody, if_neg within, if_neg plain, if_neg (not_or.2 line)]

theorem literalBody_escape {value next : Units} (reads : escapeSequence p = some (value, next)) :
    literalBody (fuel + 1) (0x5C :: p) =
      (literalBody fuel next).map fun (later, rest) => (value ++ later, rest) := by
  rw [literalBody, if_neg (by decide), if_pos rfl, reads]
  rfl

theorem escapeSequence_single {c unit : UInt16} (single : singleEscape c = some unit) :
    escapeSequence (c :: p) = some ([unit], p) := by
  rw [escapeSequence, single]

theorem hexDigits_cons {n value d : Nat} {c : UInt16} (digit : hexValue c = some d) :
    hexDigits (n + 1) value (c :: p) = hexDigits n (value * 16 + d) p := by
  rw [hexDigits, digit]

theorem escapeSequence_unicode {a b c d : UInt16} {w x y z : Nat} (first : hexValue a = some w)
    (second : hexValue b = some x) (third : hexValue c = some y) (fourth : hexValue d = some z) :
    escapeSequence (0x75 :: a :: b :: c :: d :: p) =
      some ([.ofNat (((w * 16 + x) * 16 + y) * 16 + z)], p) := by
  have digits : hexDigits 4 0 (a :: b :: c :: d :: p) =
      some (((w * 16 + x) * 16 + y) * 16 + z, p) := by
    rw [hexDigits_cons first, hexDigits_cons second, hexDigits_cons third, hexDigits_cons fourth,
      Nat.zero_mul, Nat.zero_add]
    rfl
  have unbraced : a ≠ 0x7B := by
    rintro rfl
    cases first
  have reads : unicodeSequence (a :: b :: c :: d :: p) =
      (hexDigits 4 0 (a :: b :: c :: d :: p)).map fun (unit, next) => ([.ofNat unit], next) := by
    unfold unicodeSequence
    split
    next same => exact absurd (List.cons.inj same).1 unbraced
    next => rfl
  rw [escapeSequence, reads, digits]
  rfl

end Rounds
end StringLiterals
