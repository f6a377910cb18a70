import QuickJSBridge.ForeignCalls

/- Values across the border: toJavaObject and toJSValue of quickjs_wrapper.cpp. -/
namespace QuickJSBridge
open HostProgram

def maxSafeInteger : Int := 0x1FFFFFFFFFFFFF

/-- The message buffer of `throwJavaException` has 512 bytes. -/
def unsupportedType (className : String) : JavaException :=
  .illegalArgument (.ofList (("Unsupported Java type " ++ className).toList.take 511))

/-- The object case of `toJavaObject` up to the bookkeeping: the handle. A function's
    handle records the payload of `this_obj`, whatever its tag is. -/
def newHandle (env : JNIEnv) (thisObj value : JSValue) (borrowed : Bool) :
    Program (Option JavaObject) := do
  if ← ask (.isFunction value) then
    askJava (.newObject env .jsFunction thisObj value.pointer borrowed)
  else if (← enterInt (.isArray value)) ≠ 0 then
    askJava (.newObject env .jsArray .undefined value.pointer borrowed)
  else
    askJava (.newObject env .jsObject .undefined value.pointer borrowed)

/-- `values` keeps one reference for each address, further ones are given back. -/
def keepValue (value : JSValue) : Program Unit := do
  if ← ask (.valuesCount value.pointer) then freeValue value
  else act (.valuesInsert value.pointer)

def toJavaObject (env : JNIEnv) (thisObj value : JSValue) (nonJsCallback : Bool) :
    Program (Option JavaObject) :=
  match value with
  | .exception => .ret none
  | .string _ _ => do
    let string ← enterText (.toCString value)
    let result ← newStringUTF env string
    (freeValue value).when nonJsCallback
    return result
  | .bool b => askJava (.valueOf env (.boolean b))
  | .int n => askJava (.valueOf env (.integer n))
  | .bigInt _ n => askJava (.valueOf env (.long (.ofInt n)))
  | .float64 d =>
    if d.isInteger then askJava (.valueOf env (.long d.toInt64))
    else askJava (.valueOf env (.double d))
  | .object _ => do
    let result ← newHandle env thisObj value (!nonJsCallback)
    (keepValue value).when nonJsCallback
    return result
  | _ => .ret none

def toJSValue (env : JNIEnv) (value : Option JavaObject) : Program JSValue :=
  match value with
  | none => .ret .undefined
  | some (.string s) => do
    let s ← getStringUTFChars env s
    enterValue (.newString s)
  | some (.double d) => do
    act (.unbox env (.double d))
    return newFloat64 d
  | some (.integer n) => do
    act (.unbox env (.integer n))
    return .int n
  | some (.long n) => do
    act (.unbox env (.long n))
    if maxSafeInteger < n.toInt ∨ n.toInt < -maxSafeInteger then enterValue (.newBigInt64 n)
    else return newInt64 n
  | some (.boolean b) => do
    act (.unbox env (.boolean b))
    return .bool b
  | some (.handle id cls pointer objPointer) => do
    act (.unbox env (.handle id cls pointer objPointer))
    return .object pointer
  | some (.callFunction f) => do
    -- JS_NewObjectClass, JS_NewCFunctionData and JS_FreeValue: a function that owns its
    -- JSFuncCallback object, into which the id is then stored
    let result ← enterValue .newCallbackFunction
    let callbackId ← askInt (.hashCode .saved f)
    act (.setFuncCallback result callbackId f)
    return result
  | some (.other className) => do
    act (.throw env (unsupportedType className))
    return .exception

end QuickJSBridge
