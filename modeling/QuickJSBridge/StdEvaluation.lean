import QuickJSBridge.EngineValues
import QuickJSBridge.BridgeState
import QuickJSBridge.NestedRuns

/- The evaluation functions of quickjs-libc in a runtime whose opaque slot still holds the
   record js_std_init_handlers put there. JS code runs inside the calls the functions make
   and can call them again; signals arrive at any moment. The values and strings the
   functions free are left out: nothing here counts references. -/
namespace QuickJSBridge.Libc
open HostProgram ReentrantMachine

section State

def SIGINT : Fin 64 := 2

/-- `JSOSSignalHandler`, for one of the 64 signals js_os_signal accepts. -/
structure SignalHandler where
  sigNum : Fin 64
  func : JSValue
  deriving DecidableEq

/-- The members of `JSThreadState` that have to do with evaluation and signals. -/
structure ThreadState where
  osSignalHandlers : List SignalHandler
  evalScriptRecurse : Int32
  recvPipe : Option Addr
  deriving DecidableEq

/-- The interrupt handlers quickjs-libc installs. -/
inductive InterruptHandler where
  | interruptHandler
  deriving DecidableEq

structure Runtime where
  slot : Option SlotRecord
  /-- The record js_std_init_handlers allocates. -/
  threadState : ThreadState
  interruptHandler : Option InterruptHandler
  /-- `os_pending_signals`. -/
  pendingSignals : BitVec 64
  /-- The pending exception is marked as one that JS code cannot catch. -/
  uncatchableError : Bool
  /-- How much of the C stack was in use where JS code called each of the C functions that
      have not returned, the innermost first. -/
  cStack : List Nat
  deriving DecidableEq

/-- `JS_NewRuntime`, in a process in which some signals may already be pending. -/
def newRuntime (pendingSignals : BitVec 64) : Runtime where
  slot := none
  threadState := ⟨[], 0, none⟩
  interruptHandler := none
  pendingSignals := pendingSignals
  uncatchableError := false
  cStack := []

def jsStdInitHandlers (s : Runtime) : Runtime :=
  { s with threadState := ⟨[], 0, none⟩, slot := some .threadState }

/-- What a pointer found in the slot points to. Any other record read as a thread state is
    undefined behaviour. -/
def Runtime.deref (s : Runtime) (ts : Option SlotRecord) : Option ThreadState :=
  if ts = some .threadState then some s.threadState else none

def sigMask (sigNum : Fin 64) : BitVec 64 := 1#64 <<< sigNum.val

def Runtime.isPending (s : Runtime) (sigNum : Fin 64) : Bool :=
  s.pendingSignals &&& sigMask sigNum ≠ 0

def osSignalHandler (sigNum : Fin 64) (s : Runtime) : Runtime :=
  { s with pendingSignals := s.pendingSignals ||| sigMask sigNum }

def Runtime.clearPending (s : Runtime) (sigNum : Fin 64) : Runtime :=
  { s with pendingSignals := s.pendingSignals &&& ~~~sigMask sigNum }

def interruptHandler (s : Runtime) : BitVec 64 := (s.pendingSignals >>> SIGINT.val) &&& 1

/-- `__js_poll_interrupts`, as far as it shows afterwards: the error it throws is marked. -/
def Runtime.pollInterrupts (s : Runtime) : Runtime :=
  match s.interruptHandler with
  | some .interruptHandler =>
    if Libc.interruptHandler s ≠ 0 then { s with uncatchableError := true } else s
  | none => s

/-- `find_sh` with what js_os_signal does to the handler it finds or makes. -/
def setHandler (sigNum : Fin 64) (func : JSValue) : List SignalHandler → List SignalHandler
  | [] => [⟨sigNum, func⟩]
  | sh :: rest =>
    if sh.sigNum = sigNum then ⟨sigNum, func⟩ :: rest else sh :: setHandler sigNum func rest

/-- `js_os_signal` with arguments it accepts. Without a function the handler is removed; in
    a worker it throws. -/
def Runtime.osSignal (s : Runtime) (sigNum : Fin 64) (func : Option JSValue) : Option Runtime :=
  (s.deref s.slot).bind fun ts =>
    if ts.recvPipe.isSome then none
    else
      let handlers := match func with
        | none => ts.osSignalHandlers.eraseP (·.sigNum = sigNum)
        | some func => setHandler sigNum func ts.osSignalHandlers
      some { s with threadState := { s.threadState with osSignalHandlers := handlers } }

end State

section Commands

inductive Prim where
  | getRuntimeOpaque
  | recvPipe (ts : Option SlotRecord)
  | incrementRecurse (ts : Option SlotRecord)
  | decrementRecurse (ts : Option SlotRecord)
  | setInterruptHandler (cb : Option InterruptHandler)
  | anyPending
  | isPending (sigNum : Fin 64)
  | clearPending (sigNum : Fin 64)
  | osSignalHandlers (ts : Option SlotRecord)
  | resetUncatchableError
  deriving DecidableEq

inductive Call where
  | getPropertyStr (obj : JSValue) (name : List UInt8)
  | toBool (v : JSValue)
  | toCStringLen (v : JSValue)
  | eval (source filename : List UInt8) (flags : Int32)
  | call (func : JSValue)
  | dumpError
  /-- Whatever else the host has the engine do. -/
  | runJS
  deriving DecidableEq

def Call.runsJS : Call → Bool
  | .toBool _ => false
  | .toCStringLen v => v.isObject
  | _ => true

def Call.isEval : Call → Bool
  | .eval _ _ _ => true
  | _ => false

inductive Answer where
  | unit
  | bool (b : Bool)
  | int (n : Int32)
  | value (v : JSValue)
  | text (bytes : Option (List UInt8))
  | record (r : Option SlotRecord)
  | handlers (list : List SignalHandler)

abbrev Program (R : Type) := Prog Prim Call Answer R

/-- The counter is a C int: an overflow is undefined behaviour. -/
def exec : Prim → Runtime → Option (Answer × Runtime)
  | .getRuntimeOpaque, s => some (.record s.slot, s)
  | .recvPipe ts, s => (s.deref ts).map fun state => (.bool state.recvPipe.isSome, s)
  | .incrementRecurse ts, s =>
    (s.deref ts).bind fun state =>
      if state.evalScriptRecurse = Int32.maxValue then none
      else
        let n := state.evalScriptRecurse + 1
        some (.int n, { s with threadState := { state with evalScriptRecurse := n } })
  | .decrementRecurse ts, s =>
    (s.deref ts).bind fun state =>
      if state.evalScriptRecurse = Int32.minValue then none
      else
        let n := state.evalScriptRecurse - 1
        some (.int n, { s with threadState := { state with evalScriptRecurse := n } })
  | .setInterruptHandler cb, s => some (.unit, { s with interruptHandler := cb })
  | .anyPending, s => some (.bool (s.pendingSignals ≠ 0), s)
  | .isPending sigNum, s => some (.bool (s.isPending sigNum), s)
  | .clearPending sigNum, s => some (.unit, s.clearPending sigNum)
  | .osSignalHandlers ts, s => (s.deref ts).map fun state => (.handlers state.osSignalHandlers, s)
  | .resetUncatchableError, s => some (.unit, { s with uncatchableError := false })

def Answer.toBool : Answer → Bool
  | .bool b => b
  | _ => false
def Answer.toInt : Answer → Int32
  | .int n => n
  | _ => 0
def Answer.toValue : Answer → JSValue
  | .value v => v
  | _ => .undefined
def Answer.toText : Answer → Option (List UInt8)
  | .text bytes => bytes
  | _ => none
def Answer.toRecord : Answer → Option SlotRecord
  | .record r => r
  | _ => none
def Answer.toHandlers : Answer → List SignalHandler
  | .handlers list => list
  | _ => []

def act (c : Prim) : Program Unit := .prim c fun _ => .ret ()
def ask (c : Prim) : Program Bool := .prim c fun a => .ret a.toBool
def askInt (c : Prim) : Program Int32 := .prim c fun a => .ret a.toInt
def getRuntimeOpaque : Program (Option SlotRecord) :=
  .prim .getRuntimeOpaque fun a => .ret a.toRecord
def osSignalHandlers (ts : Option SlotRecord) : Program (List SignalHandler) :=
  .prim (.osSignalHandlers ts) fun a => .ret a.toHandlers

def enter (e : Call) : Program Unit := .enter e fun _ => .ret ()
def enterValue (e : Call) : Program JSValue := .enter e fun a => .ret a.toValue
def enterInt (e : Call) : Program Int32 := .enter e fun a => .ret a.toInt
def enterText (e : Call) : Program (Option (List UInt8)) := .enter e fun a => .ret a.toText

def ascii (s : String) : List UInt8 := s.toList.map fun c => .ofNat c.toNat

end Commands

section Functions

def JS_EVAL_TYPE_GLOBAL : Int32 := 0
def JS_EVAL_TYPE_MODULE : Int32 := 1
def JS_EVAL_FLAG_BACKTRACE_BARRIER : Int32 := 64

/-- The option, or the default `pbool` where the object has none. -/
def getBoolOption (pbool : Int32) (obj : JSValue) (option : String) : Program (Option Int32) := do
  let val ← enterValue (.getPropertyStr obj (ascii option))
  if val.isException then return none
  if val.isUndefined then return some pbool
  let flag ← enterInt (.toBool val)
  return some flag

/-- Before `JS_Eval`: in the main thread the first evaluation installs the handler. -/
def beginEval (ts : Option SlotRecord) : Program Unit := do
  if ← ask (.recvPipe ts) then return
  let n ← askInt (.incrementRecurse ts)
  (act (.setInterruptHandler (some .interruptHandler))).when (n = 1)

def removeHandler (ret : JSValue) : Program Unit := do
  act (.setInterruptHandler none)
  act (.clearPending SIGINT)
  (act .resetUncatchableError).when ret.isException

/-- After `JS_Eval`. -/
def endEval (ts : Option SlotRecord) (ret : JSValue) : Program Unit := do
  if ← ask (.recvPipe ts) then return
  let n ← askInt (.decrementRecurse ts)
  (removeHandler ret).when (n = 0)

def evalText (filename : String) (ts : Option SlotRecord) (str : List UInt8) (flags : Int32) :
    Program Answer := do
  beginEval ts
  let ret ← enterValue (.eval str (ascii filename) flags)
  endEval ts ret
  return .value ret

/-- What is left once the option is known: an exception reading it, or converting the text,
    comes before anything is counted. -/
def evalWithOption (filename : String) (type : Int32) (ts : Option SlotRecord) (source : JSValue) :
    Option Int32 → Program Answer
  | none => .ret (.value .exception)
  | some backtraceBarrier => do
    match ← enterText (.toCStringLen source) with
    | none => return .value .exception
    | some str =>
      evalText filename ts str
        (if backtraceBarrier ≠ 0 then type ||| JS_EVAL_FLAG_BACKTRACE_BARRIER else type)

def evalArguments (filename : String) (type : Int32) (argc : Nat) (argv : List JSValue) :
    Program Answer := do
  let ts ← getRuntimeOpaque
  let option ← if 2 ≤ argc then getBoolOption 0 (argv.getD 1 .undefined) "backtrace_barrier"
    else pure (some 0)
  evalWithOption filename type ts (argv.getD 0 .undefined) option

def jsEvalScript : Nat → List JSValue → Program Answer :=
  evalArguments "<evalScript>" JS_EVAL_TYPE_GLOBAL

def jsEvalModule : Nat → List JSValue → Program Answer :=
  evalArguments "<evalModule>" JS_EVAL_TYPE_MODULE

def callHandler (func : JSValue) : Program Unit := do
  let ret ← enterValue (.call func)
  (enter .dumpError).when ret.isException

def pollHandlers : List SignalHandler → Program Unit
  | [] => .ret ()
  | sh :: rest => do
    if ← ask (.isPending sh.sigNum) then
      act (.clearPending sh.sigNum)
      callHandler sh.func
    else pollHandlers rest

/-- The block of js_os_poll that looks after signals. What follows it calls the handlers of
    timers, files and ports, as the host calls any JS code. -/
def jsOsPollSignals : Program Answer := do
  let ts ← getRuntimeOpaque
  if ← ask (.recvPipe ts) then return .unit
  if ← ask .anyPending then
    let handlers ← osSignalHandlers ts
    pollHandlers handlers
  return .unit

end Functions

section Machine

inductive Op where
  /-- js_std_loop, which only the host calls. -/
  | osPoll
  | runJS
  | evalScript (used : Nat) (argv : List JSValue)
  | evalModule (used : Nat) (argv : List JSValue)
  deriving DecidableEq

def Op.isEvaluation : Op → Bool
  | .evalScript _ _ | .evalModule _ _ => true
  | _ => false

def Op.used : Op → List Nat
  | .evalScript used _ | .evalModule used _ => [used]
  | _ => []

inductive Event where
  | pollInterrupts
  /-- Another exception takes the place of the pending one. -/
  | replaceError
  | osSignal (sigNum : Fin 64) (func : Option JSValue)
  deriving DecidableEq

def JS_DEFAULT_STACK_SIZE : Nat := 256 * 1024
def sizeofJSValue : Nat := 16

def jsCheckStackOverflow (used allocaSize : Nat) : Bool :=
  JS_DEFAULT_STACK_SIZE < used + allocaSize

def evalLength : Nat := 1

/-- `js_call_c_function`: at least the declared arguments are readable. A C function called
    from inside another one finds more of the stack in use; past the limit an error is
    thrown in place of the call. -/
def jsCallCFunction (func : Nat → List JSValue → Program Answer) (used : Nat)
    (argv : List JSValue) (s : Runtime) : Option (Runtime × Program Answer) :=
  if s.cStack.head?.all (· < used) ∧ !jsCheckStackOverflow used (sizeofJSValue * evalLength) then
    some ({ s with cStack := used :: s.cStack },
      func argv.length (argv ++ List.replicate (evalLength - argv.length) .undefined))
  else none

def inJS (ctx : Option Call) : Bool := ctx.any Call.runsJS

def start (o : Op) (ctx : Option Call) (s : Runtime) : Option (Runtime × Program Answer) :=
  match o with
  | .osPoll => some (s, jsOsPollSignals)
  | .runJS => some (s, .enter .runJS .ret)
  | .evalScript used argv => if inJS ctx then jsCallCFunction jsEvalScript used argv s else none
  | .evalModule used argv => if inJS ctx then jsCallCFunction jsEvalModule used argv s else none

def finish (o : Op) (_ : Answer) (s : Runtime) : Option Runtime :=
  if o.isEvaluation then some { s with cStack := s.cStack.tail } else some s

def deliver : Call → Answer → Runtime → Option Runtime
  | .toBool _, .int n, s => if n = 0 ∨ n = 1 then some s else none
  | .toCStringLen _, .text _, s => some s
  | .dumpError, .unit, s => some s
  | .getPropertyStr _ _, .value _, s => some s
  | .eval _ _ _, .value _, s => some s
  | .call _, .value _, s => some s
  | .runJS, .value _, s => some s
  | _, _, _ => none

def event (ev : Event) (ctx : Option Call) (s : Runtime) : Option Runtime :=
  if inJS ctx then
    match ev with
    | .pollInterrupts => some s.pollInterrupts
    | .replaceError => some { s with uncatchableError := false }
    | .osSignal sigNum func => s.osSignal sigNum func
  else none

def libc : Bridge Runtime Prim Call Answer Op Event where
  exec := exec
  side _ := .engine
  depart _ s := some s
  deliver := deliver
  caller o := if o.isEvaluation then .engine else .host
  start := start
  finish := finish
  event := event

abbrev LibcConfig := Config Runtime Prim Call Answer Op

/-- The main thread before it has run any JS code. -/
def initial (pendingSignals : BitVec 64) : LibcConfig :=
  ⟨jsStdInitHandlers (newRuntime pendingSignals), .outside, []⟩

end Machine
end QuickJSBridge.Libc
