import QuickJSBridge.ForeignCalls

/- From JS exceptions to Java exceptions, and the job loop that ends an operation. -/
namespace QuickJSBridge
open HostProgram

def findOnError (global : JSValue) : Program JSValue := do
  let onerror ← enterValue (.getPropertyStr global (ascii "onError"))
  if onerror.isNull then enterValue (.getPropertyStr global (ascii "onerror"))
  else return onerror

def tryToTriggerOnError (error : JSValue) : Program Unit := do
  let global ← askValue .getGlobalObject
  let onerror ← findOnError global
  if onerror.isNull then return
  let _ ← enterValue (.call onerror global [error])
  freeValue onerror
  freeValue global

/-- Appending the text of a value. The null pointer that a failed conversion leaves is not
    caught. -/
def appendText (v : JSValue) : Program (List Piece) := do
  match ← enterText (.toCString v) with
  | none => .crash
  | some bytes => return [.js bytes]

def appendStack (val : JSValue) : Program (List Piece) :=
  if val.isUndefined then .ret []
  else do
    let stack ← appendText val
    return .literal "\n" :: stack

def getJSErrorStr (error : JSValue) : Program (List Piece) := do
  if ← ask (.isError error) then
    tryToTriggerOnError error
    let message ← enterValue (.getPropertyStr error (ascii "message"))
    let text ← appendText message
    freeValue message
    let val ← enterValue (.getPropertyStr error (ascii "stack"))
    let stack ← appendStack val
    freeValue val
    return text ++ stack
  else
    appendText error

def getPendingErrorStr : Program (List Piece) := do
  let error ← askValue .getException
  let text ← getJSErrorStr error
  freeValue error
  return text

def throwJSException (env : JNIEnv) (message : List Piece) : Program Unit := do
  if ← ask (.exceptionCheck env) then return
  act (.throw env (.quickJS message))

def throwPendingJSException (env : JNIEnv) : Program Unit := do
  let error ← getPendingErrorStr
  throwJSException env error

def rejectionsText : Nat → List Piece → Program (List Piece)
  | 0, _ => .spin
  | fuel + 1, error => do
    if ← ask .rejectionsEmpty then return error
    let reason ← askValue .rejectionsFront
    let text ← getJSErrorStr reason
    freeValue reason
    act .rejectionsPop
    rejectionsText fuel (error ++ text ++ [.literal "\n"])

def throwIfUnhandledRejections (fuel : Nat) : Program Bool := do
  let error ← rejectionsText fuel []
  if error.isEmpty then return false
  throwJSException .saved (.literal "UnhandledPromiseRejectionException: " :: error)
  return true

/-- `JS_ExecutePendingJob`. -/
def executePendingJob : Program Int32 := do
  if ← ask .jobListEmpty then return 0
  act .takeJob
  let res ← enterValue .jobFunc
  freeValue res
  return if res.isException then -1 else 1

def pendingJobRounds (env : JNIEnv) : Nat → Program Bool
  | 0 => .spin
  | fuel + 1 => do
    let err ← executePendingJob
    if 0 < err then pendingJobRounds env fuel
    else if err < 0 then
      let error ← getPendingErrorStr
      throwJSException env error
      return false
    else return true

def executePendingJobLoop (env : JNIEnv) (fuel : Nat) : Program Bool := do
  if ← ask (.exceptionCheck env) then return false
  if ← pendingJobRounds env fuel then
    act .getRuntimeOpaque
    return !(← throwIfUnhandledRejections fuel)
  else return false

end QuickJSBridge
