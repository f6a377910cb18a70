import QuickJSBridge.PermittedCommands
import QuickJSBridge.WrapperOperations
import QuickJSBridge.JavaApi

/- The whole system as one machine: Java threads that start native methods under the monitor
   of the wrapper, the wrapper's programs, and an engine that runs arbitrary JS code inside
   the calls made to it and calls back into Java through the functions it was given.
   Threads other than the one inside native code go on with their Java code while it is
   out in the engine or in a callback; native code itself touches nothing they write. -/
namespace QuickJSBridge
open HostProgram ReentrantMachine

theorem of_ite_some {α : Type} {P : Prop} [Decidable P] {x : Option α} {y : α}
    (h : (if P then x else none) = some y) : x = some y :=
  (Option.ite_none_right_eq_some.1 h).2

inductive LibcReader where
  | jsEvalScript
  | jsEvalModule
  | isMainThread
  | jsOsSetReadHandler
  | jsOsSignal
  | jsOsSetTimeout
  | jsOsPoll
  | jsWorkerSetOnmessage
  | jsOsInit
  deriving DecidableEq

/-- What the engine does between two moments at which the wrapper can look. -/
inductive EngineEvent where
  | alloc (p : Addr) (cls : Option ObjectClass)
  | dup (p : Addr)
  | drop (p : Addr)
  | revokeProxy (p : Addr)
  | throwValue (v : JSValue)
  | catchException
  | enqueueJob
  | rejectPromise (promise : Nat) (reason : JSValue)
  | attachHandler (promise : Nat)
  | libcRead (r : LibcReader)
  deriving DecidableEq

inductive Event where
  | engine (e : EngineEvent)
  | spawn (t : ThreadId) (call : ApiCall)
  | javaStep (t : ThreadId)
  | retire (t : ThreadId)

inductive BridgeOp where
  | native (t : ThreadId)
  | jsFnCallback (func : Addr) (thisObj : JSValue) (argv : List JSValue)

def EngineEvent.withoutJS : EngineEvent → Bool
  | .alloc _ _ | .drop _ | .throwValue _ => true
  | _ => false

def World.alloc (w : World) (p : Addr) (cls : Option ObjectClass) : Option World :=
  if p = 0 ∨ (w.heap p).isSome then none
  else some { w.setCell p (some ⟨w.nextSerial, cls, 1, 1, none⟩) with
    nextSerial := w.nextSerial + 1 }

def World.dup (w : World) (p : Addr) : Option World :=
  (w.heap p).map fun c =>
    w.setCell p (some { c with refCount := c.refCount + 1, heapRefs := c.heapRefs + 1 })

def World.drop (w : World) (p : Addr) : Option World :=
  (w.toNative p).bind fun w' => w'.release p

def World.revokeProxy (w : World) (p : Addr) : Option World :=
  (w.heap p).bind fun c =>
    if c.cls = some .objectProxy ∨ c.cls = some .arrayProxy then
      some (w.setCell p (some { c with cls := some .revokedProxy }))
    else none

/-- `JS_Throw`: the value that was pending is freed. -/
def World.throwValue (w : World) (v : JSValue) : Option World :=
  (w.onValue World.toNative v).bind fun w' =>
    World.onValue World.release { w' with exception := v } w.exception

def World.catchException (w : World) : Option World :=
  World.onValue World.toHeap { w with exception := .null } w.exception

def engineEvent (w : World) : EngineEvent → Option World
  | .alloc p cls => w.alloc p cls
  | .dup p => w.dup p
  | .drop p => w.drop p
  | .revokeProxy p => w.revokeProxy p
  | .throwValue v => w.throwValue v
  | .catchException => w.catchException
  | .enqueueJob => some { w with jobs := w.jobs + 1 }
  -- js_std_promise_rejection_tracker prints the reason and records nothing
  | .rejectPromise promise reason =>
    some { w with unhandled := w.unhandled ++ [⟨promise, reason⟩] }
  | .attachHandler promise =>
    some { w with unhandled := w.unhandled.filter (·.promise ≠ promise) }
  | .libcRead _ => some (w.readSlot .threadState)

def mayRun (t : ThreadId) (ctx : Option ForeignCall) (w : World) : Bool :=
  match ctx with
  | some (.engine _) => w.monitor.all (·.1 ≠ t)
  | _ => true

def setFrames (w : World) (t : ThreadId) (frames : List JavaFrame) : World :=
  { w with tasks := Function.update w.tasks t frames }

def event (ev : Event) (ctx : Option ForeignCall) (w : World) : Option World :=
  match ev with
  | .engine e =>
    match ctx with
    | some (.engine call) => if call.runsJS || e.withoutJS then engineEvent w e else none
    | _ => none
  | .spawn t call =>
    if mayRun t ctx w ∧ w.idle t ∧ call.objects.all w.knows then
      some (setFrames w t (.ready call.program :: w.tasks t))
    else none
  | .javaStep t =>
    if mayRun t ctx w then
      match w.tasks t with
      | .ready (.prim c next) :: frames =>
        let (a, w') := javaExec c w
        some (setFrames w' t (.ready (next a) :: frames))
      | _ => none
    else none
  | .retire t =>
    if mayRun t ctx w then
      match w.tasks t with
      | .ready (.ret _) :: frames => some (setFrames w t frames)
      | _ => none
    else none

def NativeOp.isConstructor : NativeOp → Bool
  | .createContext => true
  | _ => false

def enterMonitor (t : ThreadId) : Option (ThreadId × Nat) → Option (ThreadId × Nat)
  | none => some (t, 0)
  | some (owner, n) => if owner = t then some (t, n + 1) else none

def leaveMonitor : Option (ThreadId × Nat) → Option (ThreadId × Nat)
  | some (t, n + 1) => some (t, n)
  | _ => none

/-- A thread enters a native method; only the constructor runs on a wrapper that has not been
    made. -/
def startNative (t : ThreadId) (w : World) : Option (World × Program Answer) :=
  match w.tasks t with
  | .ready (.enter op next) :: frames =>
    match enterMonitor t w.monitor with
    | none => none
    | some monitor =>
      if w.javaException = none ∧ w.created = !op.isConstructor then
        some (setFrames { w with monitor := monitor } t (.waiting next :: frames), op.program t)
      else none
  | _ => none

def finishNative (t : ThreadId) (a : Answer) (w : World) : Option World :=
  match w.tasks t with
  | .waiting next :: frames =>
    let answer := match w.javaException with
      | some e => .javaThrow e
      | none => a
    some (setFrames { w with javaException := none, monitor := leaveMonitor w.monitor } t
      (.ready (next answer) :: frames))
  | _ => none

def startCallback (func : Addr) (thisObj : JSValue) (argv : List JSValue)
    (ctx : Option ForeignCall) (w : World) : Option (World × Program Answer) :=
  match ctx with
  | some (.engine call) =>
    if call.runsJS ∧ ((w.heap func).bind Cell.callback).isSome ∧ (thisObj :: argv).all w.alive then
      some (w, (jsFnCallback (.object func) thisObj argv).bind fun v => .ret (.value v))
    else none
  | _ => none

def start : BridgeOp → Option ForeignCall → World → Option (World × Program Answer)
  | .native t, _, w => startNative t w
  | .jsFnCallback func thisObj argv, ctx, w => startCallback func thisObj argv ctx w

def finish : BridgeOp → Answer → World → Option World
  | .native t, a, w => finishNative t a w
  | .jsFnCallback _ _ _, a, w => w.onValue World.toHeap a.toValue

def bridge : Bridge World Prim ForeignCall Answer BridgeOp Event where
  exec := exec
  side
    | .engine _ => .engine
    | .java _ _ => .host
  depart := depart
  deliver := deliver
  caller
    | .native _ => .host
    | .jsFnCallback _ _ _ => .engine
  start := start
  finish := finish
  event := event

abbrev BridgeConfig := Config World Prim ForeignCall Answer BridgeOp
abbrev BridgeLabel := Label Answer BridgeOp Event
abbrev BridgeMoment := Moment World Prim ForeignCall Answer BridgeOp Event

/-- No native method has been called yet. -/
def initial (globalObj : Addr) (jvm : List UInt8 → JavaString) : BridgeConfig :=
  ⟨.fresh globalObj jvm, .outside, []⟩

/-- Thread 0 makes the wrapper, with the module object of the constructor's script at 2. -/
def constructing : List BridgeLabel :=
  [.event (.spawn 0 .newWrapper), .call (.native 0), .tau, .tau, .tau, .answer .unit, .tau,
    .event (.engine (.alloc 2 none)), .answer (.value (.module 2)), .tau, .answer .unit, .tau,
    .event (.engine (.libcRead .jsOsInit)), .answer (.value .undefined), .tau, .tau, .tau,
    .event (.retire 0)]

end QuickJSBridge
