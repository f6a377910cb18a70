import QuickJSBridge.ModifiedUtf8

/- Text inside the engine: the UTF-8 routines of cutils.c and the two conversions between
   C strings and JS strings of quickjs.c, with the int arithmetic of their buffer sizes. -/
namespace QuickJSBridge

/-- `unicode_to_utf8`. -/
def unicodeToUtf8 (c : Nat) : List UInt8 :=
  if c < 0x80 then [.ofNat c]
  else if c < 0x800 then [.ofNat (0xC0 + c / 64), .ofNat (0x80 + c % 64)]
  else if c < 0x10000 then
    [.ofNat (0xE0 + c / 4096), .ofNat (0x80 + c / 64 % 64), .ofNat (0x80 + c % 64)]
  else if c < 0x200000 then
    [.ofNat (0xF0 + c / 262144), .ofNat (0x80 + c / 4096 % 64), .ofNat (0x80 + c / 64 % 64),
      .ofNat (0x80 + c % 64)]
  else if c < 0x4000000 then
    [.ofNat (0xF8 + c / 16777216), .ofNat (0x80 + c / 262144 % 64),
      .ofNat (0x80 + c / 4096 % 64), .ofNat (0x80 + c / 64 % 64), .ofNat (0x80 + c % 64)]
  else if c < 0x80000000 then
    [.ofNat (0xFC + c / 1073741824), .ofNat (0x80 + c / 16777216 % 64),
      .ofNat (0x80 + c / 262144 % 64), .ofNat (0x80 + c / 4096 % 64),
      .ofNat (0x80 + c / 64 % 64), .ofNat (0x80 + c % 64)]
  else []

def utf8Tail : Nat → Nat → List UInt8 → Option (Nat × List UInt8)
  | 0, c, p => some (c, p)
  | _ + 1, _, [] => none
  | l + 1, c, b :: p =>
    if b.toNat < 0x80 ∨ 0xC0 ≤ b.toNat then none else utf8Tail l (c * 64 + b.toNat % 64) p

def utf8Head (c : Nat) : Option (Nat × Nat × Nat) :=
  if c < 0xC0 then none
  else if c < 0xE0 then some (1, c % 32, 0x80)
  else if c < 0xF0 then some (2, c % 16, 0x800)
  else if c < 0xF8 then some (3, c % 8, 0x10000)
  else if c < 0xFC then some (4, c % 4, 0x200000)
  else if c < 0xFE then some (5, c % 2, 0x4000000)
  else none

/-- `unicode_from_utf8`, with the bytes after the sequence. -/
def unicodeFromUtf8 : List UInt8 → Option (Nat × List UInt8)
  | [] => none
  | a :: p =>
    if a.toNat < 0x80 then some (a.toNat, p)
    else
      match utf8Head a.toNat with
      | none => none
      | some (l, c, least) =>
        match utf8Tail l c p with
        | none => none
        | some (c, next) => if c < least then none else some (c, next)

/-- A JS string, stored with one or with two bytes for each code unit. -/
structure JSString where
  isWide : Bool
  units : List UInt16
  narrow : isWide = false → ∀ u ∈ units, u.toNat < 0x100
  deriving DecidableEq

def JSString.ofUnits (units : List UInt16) : JSString :=
  if fits : units.all (·.toNat < 0x100) then
    ⟨false, units, fun _ u member => of_decide_eq_true (List.all_eq_true.1 fits u member)⟩
  else ⟨true, units, fun wide => nomatch wide⟩

@[simp] theorem units_ofUnits (units : List UInt16) : (JSString.ofUnits units).units = units := by
  unfold JSString.ofUnits
  split <;> rfl

def maxStringLength : Nat := 0x3FFFFFFF
def maxInt : Nat := 0x7FFFFFFF

/-- How `JS_NewStringLen` gets past bytes that are no UTF-8 sequence. -/
def skipInvalid (p : List UInt8) : List UInt8 :=
  match p.dropWhile ModifiedUtf8.isContinuation with
  | [] => []
  | _ :: p => p.dropWhile ModifiedUtf8.isContinuation

/-- The loop of `JS_NewStringLen`. Each round takes at least one byte, so a fuel of the
    number of bytes is enough. -/
def utf8Units : Nat → List UInt8 → List UInt16
  | 0, _ => []
  | _ + 1, [] => []
  | fuel + 1, a :: p =>
    if a.toNat < 128 then .ofNat a.toNat :: utf8Units fuel p
    else
      match unicodeFromUtf8 (a :: p) with
      | none => 0xFFFD :: utf8Units fuel (skipInvalid (a :: p))
      | some (c, next) =>
        if c < 0x10000 then .ofNat c :: utf8Units fuel next
        else if c ≤ 0x10FFFF then
          .ofNat ((c - 0x10000) / 1024 + 0xD800) :: .ofNat ((c - 0x10000) % 1024 + 0xDC00) ::
            utf8Units fuel next
        else 0xFFFD :: utf8Units fuel (skipInvalid (a :: p))

def asciiLength (bytes : List UInt8) : Nat := (bytes.takeWhile (·.toNat < 128)).length

/-- `JS_NewStringLen`. No result stands for `JS_EXCEPTION`: the ASCII start is longer than
    a string may be, or the size of the buffer, doubled when a wide unit turns up, does not
    fit an int. -/
def newStringLen (bytes : List UInt8) : Option JSString :=
  if maxStringLength < asciiLength bytes then none
  else if asciiLength bytes = bytes.length then
    some (.ofUnits (bytes.map fun b => .ofNat b.toNat))
  else if maxInt < bytes.length then none
  else
    let string := JSString.ofUnits (utf8Units bytes.length bytes)
    if string.isWide ∧ maxInt < 2 * bytes.length then none else some string

def isHighSurrogate (u : UInt16) : Bool := 0xD800 ≤ u.toNat && u.toNat < 0xDC00
def isLowSurrogate (u : UInt16) : Bool := 0xDC00 ≤ u.toNat && u.toNat < 0xE000

/-- The loop of `JS_ToCStringLen2` over a wide string, with `cesu8` off. -/
def utf16ToUtf8 : List UInt16 → List UInt8
  | [] => []
  | [c] => unicodeToUtf8 c.toNat
  | c :: c1 :: rest =>
    if isHighSurrogate c && isLowSurrogate c1 then
      unicodeToUtf8 (c.toNat % 1024 * 1024 + c1.toNat % 1024 + 0x10000) ++ utf16ToUtf8 rest
    else unicodeToUtf8 c.toNat ++ utf16ToUtf8 (c1 :: rest)

/-- `JS_ToCStringLen2` on a string. No result stands for the null pointer: the buffer size
    does not fit an int. -/
def stringToCString (s : JSString) : Option (List UInt8) :=
  if s.isWide then
    if maxInt < s.units.length * 3 then none else some (utf16ToUtf8 s.units)
  else
    let count := (s.units.filter fun u => 0x80 ≤ u.toNat).length
    if count = 0 then some (s.units.map fun u => .ofNat u.toNat)
    else if maxInt < s.units.length + count then none
    else some (s.units.flatMap fun u =>
      if u.toNat < 0x80 then [.ofNat u.toNat]
      else [.ofNat (0xC0 + u.toNat / 64), .ofNat (0x80 + u.toNat % 64)])

def cString (bytes : List UInt8) : List UInt8 := bytes.takeWhile (· ≠ 0)

end QuickJSBridge
