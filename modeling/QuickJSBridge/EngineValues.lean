import QuickJSBridge.EngineText

/- Values on both sides: JSValue with the number JS_VALUE_GET_PTR reads out of each of them,
   float64 by its bits, and the Java objects the wrapper takes and makes. -/
namespace QuickJSBridge

abbrev Addr := Nat

structure Float64 where
  bits : BitVec 64
  deriving DecidableEq

namespace Float64

def negative (d : Float64) : Bool := d.bits.msb
def exponent (d : Float64) : Nat := d.bits.toNat / (1 <<< 52) % (1 <<< 11)
def fraction (d : Float64) : Nat := d.bits.toNat % (1 <<< 52)
def isFinite (d : Float64) : Bool := d.exponent ≠ 2047
def isNaN (d : Float64) : Bool := d.exponent = 2047 && d.fraction ≠ 0

def significand (d : Float64) : Nat :=
  if d.exponent = 0 then d.fraction else (1 <<< 52) + d.fraction
def scale (d : Float64) : Int := max d.exponent 1 - 1075

/-- `floor(d) == d`, which the infinities satisfy as well. -/
def isInteger (d : Float64) : Bool :=
  if d.isFinite then 0 ≤ d.scale || d.significand % (1 <<< (-d.scale).toNat) = 0 else !d.isNaN

def truncated (d : Float64) : Int :=
  let magnitude : Nat :=
    if 0 ≤ d.scale then d.significand <<< d.scale.toNat
    else d.significand >>> (-d.scale).toNat
  if d.negative then -magnitude else magnitude

/-- The conversions `(jlong) d` and `(int32_t) d` as the hardware does them: what does not
    fit becomes the least value. -/
def toInt64 (d : Float64) : Int64 :=
  if d.isFinite && -0x8000000000000000 ≤ d.truncated && d.truncated < 0x8000000000000000 then
    .ofInt d.truncated
  else .minValue
def toInt32 (d : Float64) : Int32 :=
  if d.isFinite && -0x80000000 ≤ d.truncated && d.truncated < 0x80000000 then
    .ofInt d.truncated
  else .minValue

/-- A positive number with `k` its binary logarithm, to 53 bits, ties to even. -/
def roundedSignificand (n k : Nat) : Nat :=
  if k ≤ 52 then n <<< (52 - k)
  else
    let half := 1 <<< (k - 53)
    let q := n / (2 * half)
    let r := n % (2 * half)
    if half < r ∨ (r = half ∧ q % 2 = 1) then q + 1 else q

/-- `(double) n`. -/
def ofInt (n : Int) : Float64 :=
  if n = 0 then ⟨0⟩
  else
    let k := n.natAbs.log2
    let sign := if n < 0 then 1 <<< 63 else 0
    ⟨.ofNat 64 (sign + ((k + 1023) <<< 52) + (roundedSignificand n.natAbs k - (1 <<< 52)))⟩

end Float64

inductive JSValue where
  | exception
  | undefined
  | null
  | bool (b : Bool)
  | int (n : Int32)
  | float64 (d : Float64)
  | string (p : Addr) (s : JSString)
  | symbol (p : Addr)
  | bigInt (p : Addr) (n : Int)
  | bigFloat (p : Addr)
  | bigDecimal (p : Addr)
  | object (p : Addr)
  | functionBytecode (p : Addr)
  | module (p : Addr)
  deriving DecidableEq

namespace JSValue

/-- The counted allocation a value points to, `JS_VALUE_HAS_REF_COUNT`. -/
def addr? : JSValue → Option Addr
  | .string p _ | .symbol p | .bigInt p _ | .bigFloat p | .bigDecimal p => some p
  | .object p | .functionBytecode p | .module p => some p
  | _ => none

/-- `JS_VALUE_GET_PTR` reads the payload of any value as an address. -/
def pointer : JSValue → Nat
  | .exception | .undefined | .null => 0
  | .bool b => if b then 1 else 0
  | .int n => n.toUInt32.toNat
  | .float64 d => d.bits.toNat
  | .string p _ | .symbol p | .bigInt p _ | .bigFloat p | .bigDecimal p => p
  | .object p | .functionBytecode p | .module p => p

/-- `JS_VALUE_GET_INT` reads its low half. -/
def getInt (v : JSValue) : Int32 := .ofNat v.pointer

def isException (v : JSValue) : Bool := v = .exception
def isNull (v : JSValue) : Bool := v = .null
def isUndefined (v : JSValue) : Bool := v = .undefined
def isString : JSValue → Bool
  | .string _ _ => true
  | _ => false
def isObject : JSValue → Bool
  | .object _ => true
  | _ => false

end JSValue

/-- `JS_NewFloat64`: a double that is an int32, down to its bits, becomes one. -/
def newFloat64 (d : Float64) : JSValue :=
  if Float64.ofInt d.toInt32.toInt = d then .int d.toInt32 else .float64 d

/-- `JS_NewInt64`. -/
def newInt64 (n : Int64) : JSValue :=
  if n.toInt32.toInt = n.toInt then .int n.toInt32 else .float64 (.ofInt n.toInt)

abbrev JavaString := List UInt16

/-- An implementation of the interface, with the hash code it answers. -/
structure JSCallFunction where
  identity : Nat
  hashCode : Int32
  deriving DecidableEq

inductive HandleClass where
  | jsObject
  | jsArray
  | jsFunction
  deriving DecidableEq

/-- Handles are told apart by an id: several may denote one JS object. -/
inductive JavaObject where
  | string (s : JavaString)
  | double (d : Float64)
  | integer (n : Int32)
  | long (n : Int64)
  | boolean (b : Bool)
  | handle (id : Nat) (cls : HandleClass) (pointer objPointer : Nat)
  | callFunction (f : JSCallFunction)
  | other (className : String)
  deriving DecidableEq

/-- A part of a message: a literal of the wrapper, or text that came out of the engine. -/
inductive Piece where
  | literal (text : String)
  | js (bytes : List UInt8)
  deriving DecidableEq

inductive JavaException where
  | nullPointer (message : String)
  | illegalArgument (message : String)
  | quickJS (message : List Piece)
  | classCast
  | thrownByJava (id : Nat)
  deriving DecidableEq

end QuickJSBridge
