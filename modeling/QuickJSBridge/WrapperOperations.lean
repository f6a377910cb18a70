import QuickJSBridge.Marshalling
import QuickJSBridge.ErrorReporting

/- The operations of the wrapper: the methods of QuickJSWrapper in quickjs_wrapper.cpp and the
   null checks of quickjs_context_jni.cpp in front of them. -/
namespace QuickJSBridge
open HostProgram

namespace Wrapper

def evaluate (env : JNIEnv) (script fileName : JavaString) (fuel : Nat) :
    Program (Option JavaObject) := do
  let script ← getStringUTFChars env script
  let fileName ← getStringUTFChars env fileName
  let result ← enterValue (.eval script fileName ⟨false, false⟩)
  if result.isException then
    throwPendingJSException env
    return none
  else if ← executePendingJobLoop env fuel then
    let global ← askValue .getGlobalObject
    let jsObj ← toJavaObject env global result true
    freeValue global
    return jsObj
  else
    freeValue result
    return none

def evaluateModule (env : JNIEnv) (script fileName : JavaString) (fuel : Nat) :
    Program (Option JavaObject) := do
  let script ← getStringUTFChars env script
  let fileName ← getStringUTFChars env fileName
  let result ← enterValue (.eval script fileName ⟨true, false⟩)
  if result.isException then
    throwPendingJSException env
    return none
  else if ← executePendingJobLoop env fuel then
    let global ← askValue .getGlobalObject
    let jsObj ← toJavaObject env global result true
    freeValue global
    return jsObj
  else
    freeValue result
    return none

def getGlobalObject (env : JNIEnv) : Program (Option JavaObject) := do
  let value ← askValue .getGlobalObject
  let result ← askJava (.newObject env .jsObject .undefined value.pointer false)
  freeValue value
  return result

def getProperty (env : JNIEnv) (objValue : Nat) (name : JavaString) :
    Program (Option JavaObject) := do
  let jsObject := JSValue.object objValue
  let propsName ← getStringUTFChars env name
  let propsValue ← enterValue (.getPropertyStr jsObject propsName)
  if propsValue.isException then
    throwPendingJSException env
    return none
  else toJavaObject env jsObject propsValue true

/-- Values made for these arguments are freed after the call. The null reference passes
    every `IsInstanceOf` test. -/
def isFreedArgument : Option JavaObject → Bool
  | some (.handle _ _ _ _) | some (.other _) => false
  | _ => true

/-- The arguments of `call` and those to be freed, unless one cannot be converted. -/
def callArguments (env : JNIEnv) : List (Option JavaObject) → List JSValue → List JSValue →
    Program (Option (List JSValue × List JSValue))
  | [], arguments, freeArguments => .ret (some (arguments, freeArguments))
  | arg :: args, arguments, freeArguments => do
    if ← ask (.exceptionCheck env) then return some (arguments, freeArguments)
    let jsArg ← toJSValue env arg
    if jsArg.isException then return none
    callArguments env args (arguments ++ [jsArg])
      (if isFreedArgument arg then freeArguments ++ [jsArg] else freeArguments)

def freeValues : List JSValue → Program Unit
  | [] => .ret ()
  | v :: values => do
    freeValue v
    freeValues values

/-- `call` from the arguments on. -/
def callWith (env : JNIEnv) (func : Nat) (jsObj : JSValue) (arguments freeArguments : List JSValue)
    (fuel : Nat) : Program (Option JavaObject) := do
  let ret ← enterValue (.call (.object func) jsObj arguments)
  if ret.isException then
    throwPendingJSException env
    return none
  else
    freeValues freeArguments
    if ← executePendingJobLoop env fuel then toJavaObject env jsObj ret true
    else
      freeValue ret
      return none

def call (env : JNIEnv) (func thisObj : Nat) (args : List (Option JavaObject)) (fuel : Nat) :
    Program (Option JavaObject) := do
  match ← callArguments env args [] [] with
  | none => return none
  | some (arguments, freeArguments) =>
    let jsObj := if thisObj = 0 then JSValue.undefined else .object thisObj
    callWith env func jsObj arguments freeArguments fuel

def jsonStringify (env : JNIEnv) (objValue : Nat) : Program (Option JavaObject) := do
  let obj ← enterValue (.jsonStringify (.object objValue))
  if obj.isException then
    throwPendingJSException env
    return none
  else
    let result ← enterText (.toCString obj)
    freeValue obj
    newStringUTF env result

def length (env : JNIEnv) (objValue : Nat) : Program Int32 := do
  let length ← enterValue (.getPropertyStr (.object objValue) (ascii "length"))
  if length.isException then
    throwPendingJSException env
    return -1
  else
    freeValue length
    return length.getInt

def get (env : JNIEnv) (objValue : Nat) (index : Int32) : Program (Option JavaObject) := do
  let jsObj := JSValue.object objValue
  let child ← enterValue (.getPropertyUint32 jsObj index.toUInt32)
  toJavaObject env jsObj child true

def set (env : JNIEnv) (thisObj : Nat) (value : Option JavaObject) (index : Int32) :
    Program Unit := do
  let child ← toJSValue env value
  (act (.dupValue child)).when !child.isString
  let _ ← enterInt (.setPropertyUint32 (.object thisObj) index.toUInt32 child)

/-- What `setProperty` does to a converted value before it is stored. -/
def prepareProperty (propName : List UInt8) (value : Option JavaObject) (propValue : JSValue) :
    Program Unit :=
  match value with
  | none | some (.handle _ _ _ _) => act (.dupValue propValue)
  | some (.callFunction _) => do
    let _ ← enterInt (.defineName propValue propName)
  | _ => .ret ()

def setProperty (env : JNIEnv) (thisObj : Nat) (name : JavaString) (value : Option JavaObject) :
    Program Unit := do
  let propName ← getStringUTFChars env name
  let propValue ← toJSValue env value
  prepareProperty propName value propValue
  let _ ← enterInt (.setPropertyStr (.object thisObj) propName propValue)

def freeValue (value : Nat) : Program Unit := do
  if ← ask (.valuesErase value) then QuickJSBridge.freeValue (.object value)

def parseJSON (env : JNIEnv) (json : JavaString) : Program (Option JavaObject) := do
  let json ← getStringUTFChars env json
  let jsonObj ← enterValue (.parseJSON json)
  if jsonObj.isException then
    throwPendingJSException env
    return none
  else toJavaObject env .undefined jsonObj true

def compile (env : JNIEnv) (source fileName : JavaString) (isModule : Bool) :
    Program (Option (List UInt8)) := do
  let sourceCode ← getStringUTFChars env source
  let fileName ← getStringUTFChars env fileName
  let compiled ← enterValue (.eval sourceCode fileName ⟨isModule, true⟩)
  if compiled.isException then
    throwPendingJSException env
    return none
  else
    let buffer ← enterText (.writeObject compiled)
    let result := buffer.filter (!·.isEmpty)
    (throwPendingJSException env).when result.isNone
    QuickJSBridge.freeValue compiled
    return result

def execute (env : JNIEnv) (byteCode : List UInt8) (fuel : Nat) :
    Program (Option JavaObject) := do
  let obj ← enterValue (.readObject byteCode)
  if obj.isException then
    throwPendingJSException env
    return none
  else if (← enterInt (.resolveModule obj)) ≠ 0 then
    return none
  else
    let val ← enterValue (.evalFunction obj)
    if ← executePendingJobLoop env fuel then
      if val.isException then
        throwPendingJSException env
        return none
      -- `obj` has been consumed; only its address is used
      else toJavaObject env obj val true
    else
      QuickJSBridge.freeValue val
      return none

/-- `callFunctionBack` of the Java class. -/
def callFunctionBack (callFunctionId : Int32) (args : List (Option JavaObject)) :
    Program (Option JavaObject) := do
  match ← askJava (.callFunctionMapGet callFunctionId) with
  | some (.callFunction f) =>
    let ret ← .enter (.java f args) fun a => .ret a.toJava
    match ret with
    | some (.callFunction g) =>
      act (.putCallFunction g)
      return ret
    | _ => return ret
  | _ =>
    act (.throw .saved (.nullPointer ""))
    return none

def callbackArguments (thisVal : JSValue) : List JSValue → Program (List (Option JavaObject))
  | [] => .ret []
  | v :: argv => do
    let arg ← toJavaObject .saved thisVal v false
    let args ← callbackArguments thisVal argv
    return arg :: args

def isCallFunction : Option JavaObject → Bool
  | some (.callFunction _) => true
  | _ => false

def jsFuncCall (callbackId : Int32) (thisVal : JSValue) (argv : List JSValue) :
    Program JSValue := do
  let javaArgs ← callbackArguments thisVal argv
  let result ← callFunctionBack callbackId javaArgs
  let jsValue ← toJSValue .saved result
  (act (.dupValue jsValue)).when (jsValue.isObject && !isCallFunction result)
  return jsValue

def jsDumpObj (v : JSValue) : Program Unit := do
  let _ ← enterText (.toCString v)

def jsDumpStack (exceptionVal : JSValue) : Program Unit := do
  let val ← enterValue (.getPropertyStr exceptionVal (ascii "stack"))
  (jsDumpObj val).when !val.isUndefined
  QuickJSBridge.freeValue val

def jsStdDumpError : Program Unit := do
  let exceptionVal ← askValue .getException
  let isError ← ask (.isError exceptionVal)
  jsDumpObj exceptionVal
  (jsDumpStack exceptionVal).when isError
  QuickJSBridge.freeValue exceptionVal

/-- A module that has been compiled is evaluated once its `import.meta` is set. -/
def evalCompiled (compiled : JSValue) : Program JSValue :=
  if compiled.isException then .ret compiled
  else do
    enter (.setImportMeta compiled)
    enterValue (.evalFunction compiled)

/-- `eval_buf` for a module. -/
def evalBufModule (buf fileName : List UInt8) : Program Unit := do
  let compiled ← enterValue (.eval buf fileName ⟨true, true⟩)
  let val ← evalCompiled compiled
  jsStdDumpError.when val.isException
  QuickJSBridge.freeValue val

def importStdAndOs : List UInt8 :=
  ascii "import * as std from 'std';\nimport * as os from 'os';\n" ++
    ascii "globalThis.std = std;\nglobalThis.os = os;\n"

/-- The constructor. -/
def create (t : ThreadId) : Program Unit := do
  act (.saveEnv t)
  act (.setRuntimeOpaque .threadState)
  enter .newCustomContext
  evalBufModule importStdAndOs (ascii "<input>")
  act (.setRuntimeOpaque .wrapper)
  act .contextCreated

end Wrapper

def jsFnCallback (func thisObj : JSValue) (argv : List JSValue) : Program JSValue := do
  let callbackId ← askInt (.getFuncCallbackId func)
  act .getRuntimeOpaque
  Wrapper.jsFuncCall callbackId thisObj argv

section NativeMethods

def javaResult (p : Program (Option JavaObject)) : Program Answer := do
  let o ← p
  return .javaReturn o

def unitResult (p : Program Unit) : Program Answer := do
  p
  return .unit

def nonNull (env : JNIEnv) (argument : Option JavaString) (message : String)
    (p : JavaString → Program Answer) : Program Answer :=
  match argument with
  | none => do
    act (.throw env (.nullPointer message))
    return .javaReturn none
  | some s => p s

/-- The native methods by the functions that implement them. -/
def NativeOp.program (t : ThreadId) : NativeOp → Program Answer
  | .createContext => unitResult (Wrapper.create t)
  | .runGC => unitResult (enter .runGC)
  | .evaluate script fileName fuel =>
    nonNull (.ofThread t) script "Script cannot be null" fun script =>
    nonNull (.ofThread t) fileName "File name cannot be null" fun fileName =>
    javaResult (Wrapper.evaluate (.ofThread t) script fileName fuel)
  | .evaluateModule script fileName fuel =>
    nonNull (.ofThread t) script "Script cannot be null" fun script =>
    nonNull (.ofThread t) fileName "File name cannot be null" fun fileName =>
    javaResult (Wrapper.evaluateModule (.ofThread t) script fileName fuel)
  | .compile source fileName isModule =>
    nonNull (.ofThread t) source "Source code cannot be null" fun source =>
    nonNull (.ofThread t) fileName "File name cannot be null" fun fileName => do
      let bytes ← Wrapper.compile (.ofThread t) source fileName isModule
      return .text bytes
  | .execute bytecode fuel =>
    match bytecode with
    | none => .crash
    | some bytecode => javaResult (Wrapper.execute (.ofThread t) bytecode fuel)
  | .getGlobalObject => javaResult (Wrapper.getGlobalObject (.ofThread t))
  | .getProperty objValue name =>
    nonNull (.ofThread t) name "Property Name cannot be null" fun name =>
    javaResult (Wrapper.getProperty (.ofThread t) objValue name)
  | .setProperty objValue name value =>
    nonNull (.ofThread t) name "Property Name cannot be null" fun name =>
    unitResult (Wrapper.setProperty (.ofThread t) objValue name value)
  | .length objValue => do
    let n ← Wrapper.length (.ofThread t) objValue
    return .int n
  | .get objValue index => javaResult (Wrapper.get (.ofThread t) objValue index)
  | .set objValue value index => unitResult (Wrapper.set (.ofThread t) objValue value index)
  | .freeValue objValue => unitResult (Wrapper.freeValue objValue)
  | .call func thisObj args fuel =>
    javaResult (Wrapper.call (.ofThread t) func thisObj args fuel)
  | .stringify objValue => javaResult (Wrapper.jsonStringify (.ofThread t) objValue)
  | .parseJSON json =>
    nonNull (.ofThread t) json "JSON cannot be null" fun json =>
    javaResult (Wrapper.parseJSON (.ofThread t) json)

end NativeMethods
end QuickJSBridge
