import QuickJSBridge.BridgeState

/- The Java side: the public methods of QuickJSWrapper and its handle classes, and the
   Invocable methods of the script engine, down to their native calls. -/
namespace QuickJSBridge
open HostProgram

inductive ApiCall where
  | newWrapper
  | runGC
  | evaluate (script fileName : Option JavaString) (isModule : Bool) (fuel : Nat)
  | compile (script fileName : Option JavaString) (isModule : Bool)
  | execute (code : Option (List UInt8)) (fuel : Nat)
  | getGlobalObject
  | getProperty (jsObj : Option JavaObject) (name : Option JavaString)
  | setProperty (jsObj : Option JavaObject) (name : Option JavaString)
      (value : Option JavaObject)
  | length (jsArray : Option JavaObject)
  | get (jsArray : Option JavaObject) (index : Int32)
  | set (jsArray : Option JavaObject) (value : Option JavaObject) (index : Int32)
  | freeValue (jsObj : Option JavaObject)
  | stringify (jsObj : Option JavaObject)
  | createNewJSObject
  | createNewJSArray
  | call (func : Option JavaObject) (args : List (Option JavaObject)) (fuel : Nat)
  | invokeMethod (thiz : Option JavaObject) (name : Option JavaString)
      (args : List (Option JavaObject)) (fuel : Nat)
  | invokeFunction (name : Option JavaString) (args : List (Option JavaObject)) (fuel : Nat)

namespace Java

def native (op : NativeOp) : JavaProgram := .enter op fun a => .ret a

def nullPointerException : JavaProgram := .ret (.javaThrow (.nullPointer ""))

def onHandle (o : Option JavaObject) (p : Nat → Nat → Nat → JavaProgram) : JavaProgram :=
  match o with
  | some (.handle id _ pointer objPointer) => p id pointer objPointer
  | none => nullPointerException
  | some _ => .ret (.javaThrow .classCast)

/-- `putCallFunction` for a value that is a callback. -/
def putIfCallFunction (value : Option JavaObject) (p : JavaProgram) : JavaProgram :=
  match value with
  | some (.callFunction f) => .prim (.putCallFunction f) fun _ => p
  | _ => p

/-- The loop of `call` over its arguments. -/
def putCallFunctions : List (Option JavaObject) → JavaProgram → JavaProgram
  | [], p => p
  | arg :: args, p => putIfCallFunction arg (putCallFunctions args p)

def setProperty (jsObj : Option JavaObject) (name : Option JavaString)
    (value : Option JavaObject) : JavaProgram :=
  putIfCallFunction value <|
    onHandle jsObj fun _ pointer _ => native (.setProperty pointer name value)

/-- `JSFunction.call`. -/
def call (func : Option JavaObject) (args : List (Option JavaObject)) (fuel : Nat) :
    JavaProgram :=
  onHandle func fun _ pointer objPointer =>
    putCallFunctions args (native (.call pointer objPointer args fuel))

/-- `JSObject.freeValue`. -/
def freeValue (jsObj : Option JavaObject) : JavaProgram :=
  onHandle jsObj fun id pointer _ =>
    .prim (.freeValueCalled id) fun _ => native (.freeValue pointer)

/-- `JSObject.getJSFunction`. -/
def getJSFunction (jsObj : Option JavaObject) (name : Option JavaString) : JavaProgram :=
  onHandle jsObj fun _ pointer _ =>
    .enter (.getProperty pointer name) fun a =>
      match a with
      | .javaReturn (some (.handle id .jsFunction p objPointer)) =>
        .ret (.javaReturn (some (.handle id .jsFunction p objPointer)))
      | .javaThrow e => .ret (.javaThrow e)
      | _ => .ret (.javaReturn none)

def finallyDo (body last : JavaProgram) : JavaProgram :=
  body.bind fun outcome => last.bind fun a =>
    match a with
    | .javaThrow e => .ret (.javaThrow e)
    | _ => .ret outcome

def andThen (first second : JavaProgram) : JavaProgram :=
  first.bind fun a =>
    match a with
    | .javaThrow e => .ret (.javaThrow e)
    | _ => second

def invokeMethod (thiz : Option JavaObject) (name : Option JavaString)
    (args : List (Option JavaObject)) (fuel : Nat) : JavaProgram :=
  (getJSFunction thiz name).bind fun a =>
    match a with
    | .javaReturn jsfnc => finallyDo (call jsfnc args fuel) (freeValue jsfnc)
    | a => .ret a

def invokeFunction (name : Option JavaString) (args : List (Option JavaObject)) (fuel : Nat) :
    JavaProgram :=
  (native .getGlobalObject).bind fun a =>
    match a with
    | .javaReturn jsobj =>
      (getJSFunction jsobj name).bind fun a =>
        match a with
        | .javaReturn jsfnc =>
          finallyDo (call jsfnc args fuel) (andThen (freeValue jsobj) (freeValue jsfnc))
        | a => .ret a
    | a => .ret a

end Java

def ApiCall.program : ApiCall → JavaProgram
  | .newWrapper => Java.native .createContext
  | .runGC => Java.native .runGC
  | .evaluate script fileName isModule fuel =>
    if isModule then Java.native (.evaluateModule script fileName fuel)
    else Java.native (.evaluate script fileName fuel)
  | .compile script fileName isModule => Java.native (.compile script fileName isModule)
  | .execute code fuel => Java.native (.execute code fuel)
  | .getGlobalObject => Java.native .getGlobalObject
  | .getProperty jsObj name =>
    Java.onHandle jsObj fun _ pointer _ => Java.native (.getProperty pointer name)
  | .setProperty jsObj name value => Java.setProperty jsObj name value
  | .length jsArray => Java.onHandle jsArray fun _ pointer _ => Java.native (.length pointer)
  | .get jsArray index =>
    Java.onHandle jsArray fun _ pointer _ => Java.native (.get pointer index)
  | .set jsArray value index =>
    Java.onHandle jsArray fun _ pointer _ => Java.native (.set pointer value index)
  | .freeValue jsObj => Java.freeValue jsObj
  | .stringify jsObj => Java.onHandle jsObj fun _ pointer _ => Java.native (.stringify pointer)
  | .createNewJSObject => Java.native (.parseJSON (some [0x7B, 0x7D]))
  | .createNewJSArray => Java.native (.parseJSON (some [0x5B, 0x5D]))
  | .call func args fuel => Java.call func args fuel
  | .invokeMethod thiz name args fuel => Java.invokeMethod thiz name args fuel
  | .invokeFunction name args fuel => Java.invokeFunction name args fuel

def ApiCall.objects : ApiCall → List (Option JavaObject)
  | .getProperty jsObj _ | .length jsObj | .get jsObj _ | .freeValue jsObj => [jsObj]
  | .stringify jsObj => [jsObj]
  | .setProperty jsObj _ value | .set jsObj value _ => [jsObj, value]
  | .call func args _ => func :: args
  | .invokeMethod thiz _ args _ => thiz :: args
  | .invokeFunction _ args _ => args
  | _ => []

def javaExec : JavaPrim → World → Answer × World
  | .putCallFunction f, w => (.unit, w.putCallFunction f)
  | .freeValueCalled id, w =>
    (.unit, { w with handles := w.handles.modify id fun h => { h with freed := true } })

end QuickJSBridge
