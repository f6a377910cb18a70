import QuickJSBridge.BridgeState

/- The commands native code is made of. Primitives act at once: JNI calls, reads and writes
   of the wrapper's own fields, and engine functions in which nothing else can happen.
   Calls hand control to the engine or to a Java callback until they are answered.
   JNI calls that only look at a Java object (IsInstanceOf, GetArrayLength) are matches on
   it, local references and buffers that are released again are left out. -/
namespace QuickJSBridge
open HostProgram

/-- The environment a JNI call is made through: the one the operation was given, or the
    field `jniEnv` of the wrapper. -/
inductive JNIEnv where
  | ofThread (t : ThreadId)
  | saved
  deriving DecidableEq

inductive Prim where
  | getStringUTFChars (env : JNIEnv) (s : JavaString)
  | newStringUTF (env : JNIEnv) (bytes : List UInt8)
  | valueOf (env : JNIEnv) (o : JavaObject)
  | unbox (env : JNIEnv) (o : JavaObject)
  /-- The constructor of a handle class, which a function's gets the payload of `this_obj`. -/
  | newObject (env : JNIEnv) (cls : HandleClass) (thisObj : JSValue) (pointer : Nat) (borrowed : Bool)
  | hashCode (env : JNIEnv) (f : JSCallFunction)
  | exceptionCheck (env : JNIEnv)
  | throw (env : JNIEnv) (e : JavaException)
  | callFunctionMapGet (callFunctionId : Int32)
  | putCallFunction (f : JSCallFunction)
  | getException
  | getGlobalObject
  | dupValue (v : JSValue)
  | isFunction (v : JSValue)
  | isError (v : JSValue)
  | setRuntimeOpaque (r : SlotRecord)
  | getRuntimeOpaque
  | getFuncCallbackId (v : JSValue)
  | setFuncCallback (v : JSValue) (callbackId : Int32) (source : JSCallFunction)
  | jobListEmpty
  | takeJob
  | saveEnv (env : ThreadId)
  | contextCreated
  | valuesCount (pointer : Nat)
  | valuesInsert (pointer : Nat)
  | valuesErase (pointer : Nat)
  | rejectionsEmpty
  | rejectionsFront
  | rejectionsPop

structure EvalFlags where
  module : Bool
  compileOnly : Bool
  deriving DecidableEq

inductive EngineCall where
  | newCustomContext
  | eval (source fileName : List UInt8) (flags : EvalFlags)
  | setImportMeta (v : JSValue)
  | evalFunction (v : JSValue)
  | resolveModule (v : JSValue)
  | readObject (bytes : List UInt8)
  | writeObject (v : JSValue)
  | getPropertyStr (obj : JSValue) (name : List UInt8)
  | getPropertyUint32 (obj : JSValue) (index : UInt32)
  | setPropertyStr (obj : JSValue) (name : List UInt8) (v : JSValue)
  | setPropertyUint32 (obj : JSValue) (index : UInt32) (v : JSValue)
  | defineName (func : JSValue) (name : List UInt8)
  | call (func this : JSValue) (args : List JSValue)
  | jobFunc
  | jsonStringify (v : JSValue)
  | parseJSON (bytes : List UInt8)
  | toCString (v : JSValue)
  | isArray (v : JSValue)
  | newString (bytes : List UInt8)
  | newBigInt64 (n : Int64)
  | newCallbackFunction
  | freeValue (v : JSValue)
  | runGC
  deriving DecidableEq

inductive ForeignCall where
  | engine (e : EngineCall)
  | java (f : JSCallFunction) (args : List (Option JavaObject))
  deriving DecidableEq

/-- Calls in which JS code can run. In the others the engine may still allocate, collect,
    and throw. -/
def EngineCall.runsJS : EngineCall → Bool
  | .eval _ _ flags => !flags.compileOnly
  | .evalFunction _ | .getPropertyStr _ _ | .getPropertyUint32 _ _ => true
  | .setPropertyStr _ _ _ | .setPropertyUint32 _ _ _ | .call _ _ _ | .jobFunc => true
  | .jsonStringify _ => true
  | .toCString v => v.isObject
  | _ => false

abbrev Program (R : Type) := Prog Prim ForeignCall Answer R

section Semantics

def exec : Prim → World → Option (Answer × World)
  | .getStringUTFChars _ s, w => some (.text (some (ModifiedUtf8.encode s)), w)
  | .newStringUTF _ bytes, w =>
    let bytes := cString bytes
    some (.javaReturn (some (.string ((ModifiedUtf8.decode bytes).getD (w.jvm bytes)))), w)
  | .valueOf _ o, w => some (.javaReturn (some o), w)
  | .unbox _ _, w => some (.unit, w)
  | .newObject _ cls thisObj pointer borrowed, w =>
    some (.javaReturn (some (.handle w.handles.length cls pointer thisObj.pointer)),
      { w with handles := w.handles ++
          [⟨cls, pointer, thisObj.pointer, w.serialAt pointer, borrowed, false⟩] })
  | .hashCode _ f, w => some (.int f.hashCode, w)
  | .exceptionCheck _, w => some (.bool w.javaException.isSome, w)
  | .throw _ e, w => some (.unit, { w with javaException := some e })
  | .callFunctionMapGet id, w =>
    some (.javaReturn ((w.callFunctionMap id).map .callFunction), w)
  | .putCallFunction f, w => some (.unit, w.putCallFunction f)
  | .getException, w => some (.value w.exception, { w with exception := .null })
  | .getGlobalObject, w =>
    (w.retain w.globalObj).map fun w' => (.value (.object w.globalObj), w')
  | .dupValue v, w => (w.onValue World.retain v).map fun w' => (.value v, w')
  | .isFunction v, w => if w.alive v then some (.bool (w.isFunction v), w) else none
  | .isError v, w => if w.alive v then some (.bool (w.isError v), w) else none
  | .setRuntimeOpaque r, w => some (.unit, { w with slot := some r })
  | .getRuntimeOpaque, w => some (.unit, w.readSlot .wrapper)
  | .getFuncCallbackId v, w =>
    (v.addr?.bind fun p => (w.heap p).bind Cell.callback).map fun object =>
      (.int object.callbackId, w)
  | .setFuncCallback v id source, w =>
    v.addr?.bind fun p => (w.heap p).map fun c =>
      (.unit, w.setCell p (some { c with callback := some ⟨id, source⟩ }))
  | .jobListEmpty, w => some (.bool (w.jobs = 0), w)
  | .takeJob, w => if w.jobs = 0 then none else some (.unit, { w with jobs := w.jobs - 1 })
  | .saveEnv env, w => some (.unit, { w with jniEnv := env })
  | .contextCreated, w => some (.unit, { w with created := true })
  | .valuesCount pointer, w => some (.bool (w.values pointer), w)
  | .valuesInsert pointer, w =>
    some (.unit, { w with values := Function.update w.values pointer true })
  | .valuesErase pointer, w =>
    some (.bool (w.values pointer), { w with values := Function.update w.values pointer false })
  | .rejectionsEmpty, w => some (.bool w.unhandledRejections.isEmpty, w)
  | .rejectionsFront, w => some (.value (w.unhandledRejections.headD .exception), w)
  | .rejectionsPop, w => some (.unit, { w with unhandledRejections := w.unhandledRejections.tail })

def EngineCall.operands : EngineCall → List JSValue
  | .setImportMeta v | .evalFunction v | .resolveModule v | .writeObject v => [v]
  | .getPropertyStr obj _ | .getPropertyUint32 obj _ => [obj]
  | .setPropertyStr obj _ v | .setPropertyUint32 obj _ v => [obj, v]
  | .defineName func _ => [func]
  | .call func this args => func :: this :: args
  | .jsonStringify v | .toCString v | .isArray v | .freeValue v => [v]
  | _ => []

def EngineCall.consumed : EngineCall → Option JSValue
  | .evalFunction v | .setPropertyStr _ _ v | .setPropertyUint32 _ _ v | .freeValue v => some v
  | _ => none

def departEngine (e : EngineCall) (w : World) : Option World :=
  if e.operands.all w.alive then
    match e with
    | .freeValue v => w.onValue World.release v
    | _ =>
      match e.consumed with
      | some v => w.onValue World.toHeap v
      | none => some w
  else none

def depart : ForeignCall → World → Option World
  | .engine e, w => departEngine e w
  | .java _ _, w => some w

def World.give (w : World) (v : JSValue) : Option World := w.onValue World.toNative v

def deliverEngine (e : EngineCall) (a : Answer) (w : World) : Option World :=
  match e, a with
  | .newString bytes, .value (.string p s) =>
    if newStringLen bytes = some s then w.give (.string p s) else none
  | .newString bytes, .value .exception => if newStringLen bytes = none then some w else none
  | .newBigInt64 n, .value (.bigInt p m) =>
    if m = n.toInt then w.give (.bigInt p m) else none
  | .newCallbackFunction, .value (.object p) =>
    (w.heap p).bind fun c =>
      if c = ⟨c.serial, some .function, 1, 1, none⟩ then w.give (.object p) else none
  | .toCString (.string _ s), .text bytes => if bytes = stringToCString s then some w else none
  | .toCString (.symbol _), .text bytes => if bytes = none then some w else none
  | .toCString .exception, .text bytes => if bytes = none then some w else none
  | .toCString v, .text bytes =>
    if v.addr?.isNone ∧ bytes = none then none else some w
  | .isArray v, .int n =>
    if n = w.isArray v ∧ (n = -1 → w.exception ≠ .null) then some w else none
  | .eval _ _ _, .value v => w.give v
  | .evalFunction _, .value v => w.give v
  | .readObject _, .value v => w.give v
  | .getPropertyStr _ _, .value v => w.give v
  | .getPropertyUint32 _ _, .value v => w.give v
  | .call _ _ _, .value v => w.give v
  | .jobFunc, .value v => w.give v
  | .jsonStringify _, .value v => w.give v
  | .parseJSON _, .value v => w.give v
  | .resolveModule _, .int _ => some w
  | .setPropertyStr _ _ _, .int _ => some w
  | .setPropertyUint32 _ _ _, .int _ => some w
  | .defineName _ _, .int _ => some w
  | .writeObject _, .text _ => some w
  | .newCustomContext, .unit => some w
  | .setImportMeta _, .unit => some w
  | .freeValue _, .unit => some w
  | .runGC, .unit => some w
  | _, _ => none

def World.idle (w : World) (t : ThreadId) : Bool :=
  match w.tasks t with
  | .ready _ :: _ => false
  | _ => true

def deliver : ForeignCall → Answer → World → Option World
  | .engine e, a, w => deliverEngine e a w
  | .java _ _, .javaReturn o, w =>
    if w.knows o ∧ w.monitor.all (fun owner => w.idle owner.1) then some w else none
  | .java _ _, .javaThrow e, w =>
    if w.monitor.all (fun owner => w.idle owner.1) then some { w with javaException := some e }
    else none
  | .java _ _, _, _ => none

end Semantics

section Commands

def Answer.toBool : Answer → Bool
  | .bool b => b
  | _ => false
def Answer.toInt : Answer → Int32
  | .int n => n
  | _ => 0
def Answer.toValue : Answer → JSValue
  | .value v => v
  | _ => .undefined
def Answer.toText : Answer → Option (List UInt8)
  | .text bytes => bytes
  | _ => none
def Answer.toJava : Answer → Option JavaObject
  | .javaReturn o => o
  | _ => none

def act (c : Prim) : Program Unit := .prim c fun _ => .ret ()
def ask (c : Prim) : Program Bool := .prim c fun a => .ret a.toBool
def askValue (c : Prim) : Program JSValue := .prim c fun a => .ret a.toValue
def askJava (c : Prim) : Program (Option JavaObject) := .prim c fun a => .ret a.toJava
def askInt (c : Prim) : Program Int32 := .prim c fun a => .ret a.toInt

def enter (e : EngineCall) : Program Unit := .enter (.engine e) fun _ => .ret ()
def enterValue (e : EngineCall) : Program JSValue := .enter (.engine e) fun a => .ret a.toValue
def enterInt (e : EngineCall) : Program Int32 := .enter (.engine e) fun a => .ret a.toInt
def enterText (e : EngineCall) : Program (Option (List UInt8)) :=
  .enter (.engine e) fun a => .ret a.toText

/-- `GetStringUTFChars`. -/
def getStringUTFChars (env : JNIEnv) (s : JavaString) : Program (List UInt8) :=
  .prim (.getStringUTFChars env s) fun a => .ret (a.toText.getD [])

/-- `NewStringUTF`, which does not survive a null pointer. -/
def newStringUTF (env : JNIEnv) : Option (List UInt8) → Program (Option JavaObject)
  | none => .crash
  | some bytes => askJava (.newStringUTF env bytes)

/-- `JS_FreeValue`: nothing happens for a value that is not counted. -/
def freeValue (v : JSValue) : Program Unit :=
  match v.addr? with
  | none => .ret ()
  | some _ => enter (.freeValue v)

def ascii (s : String) : List UInt8 := s.toList.map fun c => .ofNat c.toNat

end Commands
end QuickJSBridge
