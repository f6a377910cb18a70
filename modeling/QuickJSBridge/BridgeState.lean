import QuickJSBridge.EngineValues
import QuickJSBridge.HostProgram
import Mathlib.Logic.Function.Basic

/- The state the wrapper, the engine and the Java side share. Counted allocations carry
   their reference count and, beside it, how many of these references the engine itself
   holds; an allocation is destroyed when its count drops to zero. -/
namespace QuickJSBridge
open HostProgram

abbrev ThreadId := Nat

/-- The native methods of the Java class. Those with a job loop are given the number of
    rounds it may take. -/
inductive NativeOp where
  | createContext
  | runGC
  | evaluate (script fileName : Option JavaString) (fuel : Nat)
  | evaluateModule (script fileName : Option JavaString) (fuel : Nat)
  | compile (source fileName : Option JavaString) (isModule : Bool)
  | execute (bytecode : Option (List UInt8)) (fuel : Nat)
  | getGlobalObject
  | getProperty (objValue : Nat) (name : Option JavaString)
  | setProperty (objValue : Nat) (name : Option JavaString) (value : Option JavaObject)
  | length (objValue : Nat)
  | get (objValue : Nat) (index : Int32)
  | set (objValue : Nat) (value : Option JavaObject) (index : Int32)
  | freeValue (objValue : Nat)
  | call (func thisObj : Nat) (args : List (Option JavaObject)) (fuel : Nat)
  | stringify (objValue : Nat)
  | parseJSON (json : Option JavaString)

/-- What a command of native code, or a native method called from Java, can answer. -/
inductive Answer where
  | unit
  | bool (b : Bool)
  | int (n : Int32)
  | value (v : JSValue)
  | text (bytes : Option (List UInt8))
  | javaReturn (o : Option JavaObject)
  | javaThrow (e : JavaException)

/-- Steps of the Java classes that touch state of theirs. -/
inductive JavaPrim where
  | putCallFunction (f : JSCallFunction)
  /-- The owner of a handle calls its method freeValue. -/
  | freeValueCalled (id : Nat)

abbrev JavaProgram := Prog JavaPrim NativeOp Answer Answer

/-- A Java method being executed: about to take a step, or inside a native method. -/
inductive JavaFrame where
  | ready (p : JavaProgram)
  | waiting (next : Answer → JavaProgram)

/-- What `JS_IsFunction`, `JS_IsArray` and `JS_IsError` tell apart. A proxy of a function
    counts as a function, also when it has been revoked. -/
inductive ObjectClass where
  | plain
  | function
  | array
  | error
  | objectProxy
  | arrayProxy
  | revokedProxy
  deriving DecidableEq

/-- The id in the JSFuncCallback object of a function, and the callback it was made for. -/
structure FuncCallback where
  callbackId : Int32
  source : JSCallFunction
  deriving DecidableEq

structure Cell where
  serial : Nat
  cls : Option ObjectClass
  refCount : Nat
  heapRefs : Nat
  callback : Option FuncCallback
  deriving DecidableEq

/-- A handle as it was created: for the object that lived at its address then. -/
structure Handle where
  cls : HandleClass
  pointer : Nat
  objPointer : Nat
  serial : Nat
  /-- Made for an argument of a callback, which only borrows it. -/
  borrowed : Bool
  freed : Bool
  deriving DecidableEq

/-- The two kinds of record the opaque slot of the runtime can hold. -/
inductive SlotRecord where
  | threadState
  | wrapper
  deriving DecidableEq

structure SlotRead where
  expected : SlotRecord
  found : Option SlotRecord
  deriving DecidableEq

structure Rejection where
  promise : Nat
  reason : JSValue
  deriving DecidableEq

structure World where
  heap : Addr → Option Cell
  nextSerial : Nat
  globalObj : Addr
  /-- `current_exception`, null where none is pending. -/
  exception : JSValue
  /-- Length of `job_list`. -/
  jobs : Nat
  /-- Promises that are rejected and have no handler. -/
  unhandled : List Rejection
  slot : Option SlotRecord
  slotReads : List SlotRead
  created : Bool
  jniEnv : ThreadId
  /-- The keys of `values`; under each key the map holds one reference to the object. -/
  values : Nat → Bool
  unhandledRejections : List JSValue
  /-- The Java exception pending in the thread that is inside native code. -/
  javaException : Option JavaException
  callFunctionMap : Int32 → Option JSCallFunction
  handles : List Handle
  tasks : ThreadId → List JavaFrame
  /-- Owner of the monitor of the wrapper, and how often it has entered. -/
  monitor : Option (ThreadId × Nat)
  /-- What this JVM makes of bytes that are no modified UTF-8. -/
  jvm : List UInt8 → JavaString

/-- A runtime with its context made, before the constructor of the wrapper has run. -/
def World.fresh (globalObj : Addr) (jvm : List UInt8 → JavaString) : World where
  heap := Function.update (fun _ => none) globalObj (some ⟨0, some .plain, 1, 1, none⟩)
  nextSerial := 1
  globalObj := globalObj
  exception := .null
  jobs := 0
  unhandled := []
  slot := none
  slotReads := []
  created := false
  jniEnv := 0
  values := fun _ => false
  unhandledRejections := []
  javaException := none
  callFunctionMap := fun _ => none
  handles := []
  tasks := fun _ => []
  monitor := none
  jvm := jvm

namespace World

def setCell (w : World) (p : Addr) (c : Option Cell) : World :=
  { w with heap := Function.update w.heap p c }

def readSlot (w : World) (expected : SlotRecord) : World :=
  { w with slotReads := w.slotReads ++ [⟨expected, w.slot⟩] }

/-- `removeCallFunction` of the Java class. -/
def removeCallFunction (w : World) (callFunctionId : Int32) : World :=
  { w with callFunctionMap := Function.update w.callFunctionMap callFunctionId none }

/-- `putCallFunction` of the Java class. -/
def putCallFunction (w : World) (f : JSCallFunction) : World :=
  { w with callFunctionMap := Function.update w.callFunctionMap f.hashCode (some f) }

/-- `jsFuncCallbackFinalizer`, run when the function that owns the object is destroyed. -/
def jsFuncCallbackFinalizer (w : World) (callback : Option FuncCallback) : World :=
  match callback with
  | none => w
  | some object =>
    let w' := w.readSlot .wrapper
    if w.slot = some .wrapper then w'.removeCallFunction object.callbackId else w'

def retain (w : World) (p : Addr) : Option World :=
  (w.heap p).map fun c => w.setCell p (some { c with refCount := c.refCount + 1 })

def release (w : World) (p : Addr) : Option World :=
  (w.heap p).map fun c =>
    if c.refCount ≤ 1 then (w.setCell p none).jsFuncCallbackFinalizer c.callback
    else w.setCell p (some { c with refCount := c.refCount - 1 })

def reserved (w : World) (p : Addr) : Nat := if p = w.globalObj then 1 else 0

def toNative (w : World) (p : Addr) : Option World :=
  (w.heap p).bind fun c =>
    if w.reserved p < c.heapRefs then
      some (w.setCell p (some { c with heapRefs := c.heapRefs - 1 }))
    else none

def toHeap (w : World) (p : Addr) : Option World :=
  (w.heap p).map fun c => w.setCell p (some { c with heapRefs := c.heapRefs + 1 })

def onValue (step : World → Addr → Option World) (w : World) (v : JSValue) : Option World :=
  match v.addr? with
  | none => some w
  | some p => step w p

def alive (w : World) (v : JSValue) : Bool := v.addr?.all fun p => (w.heap p).isSome

def classOf (w : World) : JSValue → Option ObjectClass
  | .object p => (w.heap p).bind Cell.cls
  | _ => none

/-- `JS_IsFunction` and `JS_IsError`. -/
def isFunction (w : World) (v : JSValue) : Bool := w.classOf v = some .function
def isError (w : World) (v : JSValue) : Bool := w.classOf v = some .error

/-- `JS_IsArray`, which fails on a revoked proxy. -/
def isArray (w : World) (v : JSValue) : Int32 :=
  match w.classOf v with
  | some .array | some .arrayProxy => 1
  | some .revokedProxy => -1
  | _ => 0

def serialAt (w : World) (p : Addr) : Nat := ((w.heap p).map Cell.serial).getD 0

def knows (w : World) : Option JavaObject → Bool
  | some (.handle id cls pointer objPointer) =>
    match w.handles[id]? with
    | none => false
    | some h => h.cls = cls && h.pointer = pointer && h.objPointer = objPointer
  | _ => true

end World
end QuickJSBridge
