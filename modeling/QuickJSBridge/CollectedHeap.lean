import QuickJSBridge.EngineValues
import QuickJSBridge.CountedGraphs
import Mathlib.Logic.Function.Basic

/- The heap of the engine as its memory manager sees it: the allocations with a
   JSGCObjectHeader, the lists their links are on, reference counts with JS_FreeValueRT, and
   the collector of cycles JS_RunGC. Strings, symbols and big numbers are counted elsewhere
   and refer to nothing. Weak references are left out, and so are variables and generator
   frames in use by a running function. -/
namespace QuickJSBridge.Collector

section Contents

/-- `JSGCObjectTypeEnum`. -/
inductive GCObjType where
  | jsObject
  | functionBytecode
  | shape
  | varRef
  | asyncFunction
  | jsContext
  deriving DecidableEq

/-- The allocation a value keeps on the list of GC objects. -/
def gcAddr? : JSValue → Option Addr
  | .object p | .functionBytecode p => some p
  | _ => none

/-- What a slot of an object holds, by the `JS_PROP_TMASK` bits of its flags. Where the atom
    of the entry is JS_ATOM_NULL the property has been deleted. -/
inductive JSProperty where
  | deleted
  | value (v : JSValue)
  | getset (getter setter : Option Addr)
  | varRef (varRef : Addr)
  | autoinit (realm : Addr)

/-- The frame of a suspended generator or async function, its stack up to `cur_sp`. -/
structure JSAsyncFunctionState where
  curFunc : JSValue
  thisVal : JSValue
  stack : List JSValue

structure JSPromiseReactionData where
  resolvingFuncs : JSValue × JSValue
  handler : JSValue

structure JSAsyncGeneratorRequest where
  result : JSValue
  promise : JSValue
  resolvingFuncs : JSValue × JSValue

/-- What the classes of the engine keep in `u`, as far as it holds GC objects. Where a
    pointer can be null the field is optional. -/
inductive ClassData where
  | plain
  | array (values : List JSValue)
  | objectData (v : JSValue)
  | cFunction (realm : Option Addr)
  /-- With its bytecode and the variables it has captured. -/
  | bytecodeFunction (homeObject : Option Addr) (code : Option (Addr × List (Option Addr)))
  | boundFunction (funcObj thisVal : JSValue) (argv : List JSValue)
  | cFunctionData (data : List JSValue)
  | forInIterator (obj : JSValue)
  | typedArray (buffer : Addr)
  | operatorSet (selfOps : List (Option Addr)) (left right : List (List (Option Addr)))
  | map (records : List (JSValue × JSValue))
  | mapIterator (obj : JSValue)
  | arrayIterator (obj : JSValue)
  | regexpStringIterator (iteratingRegexp iteratedString : JSValue)
  | generator (funcState : Option JSAsyncFunctionState)
  | proxy (target handler : JSValue)
  | promise (fulfillReactions rejectReactions : List JSPromiseReactionData) (result : JSValue)
  | promiseResolveFunction (promise : JSValue)
  | asyncFunctionResolve (s : Addr)
  | asyncFromSyncIterator (syncIter nextMethod : JSValue)
  | asyncGenerator (queue : List JSAsyncGeneratorRequest) (funcState : Option JSAsyncFunctionState)

structure JSModuleDef where
  exports : List (Option Addr)
  moduleNs : JSValue
  funcObj : JSValue
  evalException : JSValue
  metaObj : JSValue

/-- What an allocation holds. Of a freed object its header stays while others still count
    on it. -/
inductive Content where
  | jsObject (shape : Addr) (props : List JSProperty) (data : ClassData)
  | functionBytecode (cpool : List JSValue) (realm : Option Addr)
  | shape (proto : Option Addr)
  | varRef (value : JSValue)
  | asyncFunction (funcState : Option JSAsyncFunctionState) (resolvingFuncs : JSValue × JSValue)
  | jsContext (modules : List JSModuleDef) (values : List JSValue) (arrayShape : Option Addr)
  | header (type : GCObjType)

def Content.gcObjType : Content → GCObjType
  | .jsObject .. => .jsObject
  | .functionBytecode .. => .functionBytecode
  | .shape .. => .shape
  | .varRef .. => .varRef
  | .asyncFunction .. => .asyncFunction
  | .jsContext .. => .jsContext
  | .header type => type

end Contents

/- The order in which mark_children and the gc_mark of the classes report references. -/
section Marking

def markValue (v : JSValue) : List Addr := (gcAddr? v).toList

def markValues (vs : List JSValue) : List Addr := vs.flatMap markValue

def asyncFuncMark (s : JSAsyncFunctionState) : List Addr :=
  markValue s.curFunc ++ markValue s.thisVal ++ markValues s.stack

def markReaction (rd : JSPromiseReactionData) : List Addr :=
  markValue rd.resolvingFuncs.1 ++ markValue rd.resolvingFuncs.2 ++ markValue rd.handler

def markRequest (req : JSAsyncGeneratorRequest) : List Addr :=
  markValue req.result ++ markValue req.promise ++
    markValue req.resolvingFuncs.1 ++ markValue req.resolvingFuncs.2

/-- `gc_mark` of each class. -/
def ClassData.gcMark : ClassData → List Addr
  | .plain => []
  | .array values => markValues values
  | .objectData v => markValue v
  | .cFunction realm => realm.toList
  | .bytecodeFunction homeObject code =>
    homeObject.toList ++ code.elim [] fun (b, varRefs) => varRefs.flatMap Option.toList ++ [b]
  | .boundFunction funcObj thisVal argv => markValue funcObj ++ markValue thisVal ++ markValues argv
  | .cFunctionData data => markValues data
  | .forInIterator obj => markValue obj
  | .typedArray buffer => [buffer]
  | .operatorSet selfOps left right =>
    selfOps.flatMap Option.toList ++ left.flatten.flatMap Option.toList ++
      right.flatten.flatMap Option.toList
  | .map records => records.flatMap fun (key, value) => markValue key ++ markValue value
  | .mapIterator obj => markValue obj
  | .arrayIterator obj => markValue obj
  | .regexpStringIterator regexp string => markValue regexp ++ markValue string
  | .generator funcState => funcState.elim [] asyncFuncMark
  | .proxy target handler => markValue target ++ markValue handler
  | .promise fulfillReactions rejectReactions result =>
    fulfillReactions.flatMap markReaction ++ rejectReactions.flatMap markReaction ++
      markValue result
  | .promiseResolveFunction target => markValue target
  | .asyncFunctionResolve s => [s]
  | .asyncFromSyncIterator syncIter nextMethod => markValue syncIter ++ markValue nextMethod
  | .asyncGenerator queue funcState => queue.flatMap markRequest ++ funcState.elim [] asyncFuncMark

def JSProperty.mark : JSProperty → List Addr
  | .deleted => []
  | .value v => markValue v
  | .getset getter setter => getter.toList ++ setter.toList
  | .varRef v => [v]
  | .autoinit realm => [realm]

def JSModuleDef.mark (m : JSModuleDef) : List Addr :=
  m.exports.flatMap Option.toList ++ markValue m.moduleNs ++ markValue m.funcObj ++
    markValue m.evalException ++ markValue m.metaObj

/-- What `mark_children` calls its function on. -/
def Content.children : Content → List Addr
  | .jsObject sh props data => sh :: (props.flatMap JSProperty.mark ++ data.gcMark)
  | .functionBytecode cpool realm => markValues cpool ++ realm.toList
  | .varRef value => markValue value
  | .asyncFunction funcState resolvingFuncs =>
    funcState.elim [] asyncFuncMark ++ markValue resolvingFuncs.1 ++ markValue resolvingFuncs.2
  | .shape proto => proto.toList
  | .jsContext modules values arrayShape =>
    modules.flatMap JSModuleDef.mark ++ markValues values ++ arrayShape.toList
  | .header _ => []

end Marking

/- What the functions that free a content release, in their order. A pointer carries the
   type the source gives it, which decides by which function it is released. -/
section Releasing

inductive Leaf where
  | value (v : JSValue)
  | shape (p : Addr)
  | varRef (p : Addr)

inductive Pointer where
  | leaf (l : Leaf)
  | context (p : Addr)
  | asyncFunction (p : Addr)

def Leaf.target? : Leaf → Option Addr
  | .value v => gcAddr? v
  | .shape p | .varRef p => some p

def Pointer.target? : Pointer → Option Addr
  | .leaf l => l.target?
  | .context p | .asyncFunction p => some p

def Pointer.value (v : JSValue) : Pointer := .leaf (.value v)

/-- `JS_MKPTR(JS_TAG_OBJECT, p)` where the pointer is not null. -/
def objects (ps : List (Option Addr)) : List JSValue :=
  ps.flatMap fun p => p.toList.map .object

def varRefs (ps : List (Option Addr)) : List Pointer :=
  ps.flatMap fun p => p.toList.map fun v => .leaf (.varRef v)

/-- `async_func_free` after the open variables have been closed. -/
def asyncFuncFree (s : JSAsyncFunctionState) : List JSValue := s.stack ++ [s.curFunc, s.thisVal]

def promiseReactionDataFree (rd : JSPromiseReactionData) : List JSValue :=
  [rd.resolvingFuncs.1, rd.resolvingFuncs.2, rd.handler]

def freeRequest (req : JSAsyncGeneratorRequest) : List JSValue :=
  [req.result, req.promise, req.resolvingFuncs.1, req.resolvingFuncs.2]

def ClassData.finalizer : ClassData → List Pointer
  | .plain => []
  | .array values => values.map .value
  | .objectData v => [.value v]
  | .cFunction realm => realm.toList.map .context
  | .bytecodeFunction homeObject code =>
    (objects [homeObject]).map .value ++ code.elim [] fun (b, captured) =>
      varRefs captured ++ [.value (.functionBytecode b)]
  | .boundFunction funcObj thisVal argv => (funcObj :: thisVal :: argv).map .value
  | .cFunctionData data => data.map .value
  | .forInIterator obj => [.value obj]
  | .typedArray buffer => [.value (.object buffer)]
  | .operatorSet selfOps left right =>
    (objects selfOps ++ objects left.flatten ++ objects right.flatten).map .value
  | .map records => (records.flatMap fun (key, value) => [key, value]).map .value
  | .mapIterator obj => [.value obj]
  | .arrayIterator obj => [.value obj]
  | .regexpStringIterator regexp string => [.value regexp, .value string]
  | .generator funcState => (funcState.elim [] asyncFuncFree).map .value
  | .proxy target handler => [.value target, .value handler]
  | .promise fulfillReactions rejectReactions result =>
    (fulfillReactions.flatMap promiseReactionDataFree ++
      rejectReactions.flatMap promiseReactionDataFree ++ [result]).map .value
  | .promiseResolveFunction target => [.value target]
  | .asyncFunctionResolve s => [.asyncFunction s]
  | .asyncFromSyncIterator syncIter nextMethod => [.value syncIter, .value nextMethod]
  | .asyncGenerator queue funcState =>
    (queue.flatMap freeRequest ++ funcState.elim [] asyncFuncFree).map .value

def ClassData.inspected : ClassData → List Addr
  | .typedArray buffer => [buffer]
  | .mapIterator obj => markValue obj
  | _ => []

/-- `free_property`. -/
def JSProperty.free : JSProperty → List Pointer
  | .deleted => []
  | .value v => [.value v]
  | .getset getter setter => (objects [getter, setter]).map .value
  | .varRef v => [.leaf (.varRef v)]
  | .autoinit realm => [.context realm]

/-- `js_free_module_def`. -/
def JSModuleDef.free (m : JSModuleDef) : List Leaf :=
  (m.exports.flatMap fun p => p.toList.map .varRef) ++
    [.value m.moduleNs, .value m.funcObj, .value m.evalException, .value m.metaObj]

/-- What `JS_FreeContext` releases. -/
def contextLeaves (modules : List JSModuleDef) (values : List JSValue)
    (arrayShape : Option Addr) : List Leaf :=
  modules.flatMap JSModuleDef.free ++ values.map .value ++ arrayShape.toList.map .shape

/-- What `js_async_function_free0` releases. -/
def asyncFunctionValues (funcState : Option JSAsyncFunctionState)
    (resolvingFuncs : JSValue × JSValue) : List JSValue :=
  funcState.elim [] asyncFuncFree ++ [resolvingFuncs.1, resolvingFuncs.2]

/-- Everything a content releases when its allocation is freed. -/
def Content.releases : Content → List Pointer
  | .jsObject sh props data => props.flatMap JSProperty.free ++ .leaf (.shape sh) :: data.finalizer
  | .functionBytecode cpool realm => cpool.map .value ++ realm.toList.map .context
  | .shape proto => (objects [proto]).map .value
  | .varRef value => [.value value]
  | .asyncFunction funcState resolvingFuncs =>
    (asyncFunctionValues funcState resolvingFuncs).map .value
  | .jsContext modules values arrayShape => (contextLeaves modules values arrayShape).map .leaf
  | .header _ => []

end Releasing

section Heap

structure GCObject where
  refCount : Nat
  mark : Bool
  freeMark : Bool
  content : Content

inductive GCPhase where
  | none
  | decref
  | removeCycles
  deriving DecidableEq

structure Runtime where
  heap : Addr → Option GCObject
  gcObjList : List Addr
  gcZeroRefCountList : List Addr
  tmpObjList : List Addr
  gcPhase : GCPhase

namespace Runtime

def set (rt : Runtime) (p : Addr) (o : Option GCObject) : Runtime :=
  { rt with heap := Function.update rt.heap p o }

/-- `list_del(&p->link)`, from whichever list the link is on. -/
def listDel (rt : Runtime) (p : Addr) : Runtime :=
  { rt with
    gcObjList := rt.gcObjList.erase p
    gcZeroRefCountList := rt.gcZeroRefCountList.erase p
    tmpObjList := rt.tmpObjList.erase p }

/-- `js_free_rt`. Freeing twice is undefined. -/
def jsFreeRT (rt : Runtime) (p : Addr) : Option Runtime := (rt.heap p).map fun _ => rt.set p none

end Runtime

/-- `--p->ref_count`, on an allocation that is still there and counted. -/
def decrement (rt : Runtime) (p : Addr) : Option (Runtime × GCObject) := do
  let o ← rt.heap p
  guard (0 < o.refCount)
  let o' := { o with refCount := o.refCount - 1 }
  return (rt.set p (some o'), o')

end Heap

section Freeing

/-- `__JS_FreeValueRT` for a GC object whose count has dropped to zero, while the list of
    these is being worked off or cycles are being removed. -/
def queueZero (rt : Runtime) (p : Addr) : Runtime :=
  if rt.gcPhase = .removeCycles then rt
  else
    let rt' := rt.listDel p
    { rt' with gcZeroRefCountList := p :: rt'.gcZeroRefCountList }

/-- `JS_FreeValueRT`, called in either of these phases. -/
def freeNested (rt : Runtime) (v : JSValue) : Option Runtime :=
  match gcAddr? v with
  | none => some rt
  | some p => do
    let (rt', o) ← decrement rt p
    return if o.refCount = 0 then queueZero rt' p else rt'

def freeValues (rt : Runtime) (vs : List JSValue) : Option Runtime := vs.foldlM freeNested rt

/-- `js_free_shape` with `js_free_shape0`. -/
def jsFreeShape (rt : Runtime) (sh : Addr) : Option Runtime := do
  let (rt', o) ← decrement rt sh
  match o.content with
  | .shape proto =>
    if o.refCount = 0 then
      let freed ← freeValues rt' (objects [proto])
      (freed.listDel sh).jsFreeRT sh
    else return rt'
  | _ => none

/-- `free_var_ref` of a detached variable. -/
def freeVarRef (rt : Runtime) (varRef : Addr) : Option Runtime := do
  let (rt', o) ← decrement rt varRef
  match o.content with
  | .varRef value =>
    if o.refCount = 0 then
      let freed ← freeNested rt' value
      (freed.listDel varRef).jsFreeRT varRef
    else return rt'
  | _ => none

def freeLeaf (rt : Runtime) : Leaf → Option Runtime
  | .value v => freeNested rt v
  | .shape p => jsFreeShape rt p
  | .varRef p => freeVarRef rt p

/-- `JS_FreeContext`. -/
def jsFreeContext (rt : Runtime) (ctx : Addr) : Option Runtime := do
  let (rt', o) ← decrement rt ctx
  match o.content with
  | .jsContext modules values arrayShape =>
    if o.refCount = 0 then
      let freed ← (contextLeaves modules values arrayShape).foldlM freeLeaf rt'
      (freed.listDel ctx).jsFreeRT ctx
    else return rt'
  | _ => none

/-- `js_async_function_free` with `js_async_function_free0`. -/
def jsAsyncFunctionFree (rt : Runtime) (s : Addr) : Option Runtime := do
  let (rt', o) ← decrement rt s
  match o.content with
  | .asyncFunction funcState resolvingFuncs =>
    if o.refCount = 0 then
      let freed ← freeValues rt' (asyncFunctionValues funcState resolvingFuncs)
      (freed.listDel s).jsFreeRT s
    else return rt'
  | _ => none

def freePointer (rt : Runtime) : Pointer → Option Runtime
  | .leaf l => freeLeaf rt l
  | .context p => jsFreeContext rt p
  | .asyncFunction p => jsAsyncFunctionFree rt p

def freePointers (rt : Runtime) (ps : List Pointer) : Option Runtime := ps.foldlM freePointer rt

/-- `JS_IsLiveObject`, which reads the header of the object. -/
def jsIsLiveObject (rt : Runtime) (p : Addr) : Option Bool := (rt.heap p).map fun o => !o.freeMark

/-- The end of `free_object` and `free_function_bytecode`: where cycles are being removed
    the header stays as long as it is counted on. -/
def freeHeader (rt : Runtime) (p : Addr) : Option Runtime := do
  let rt' := rt.listDel p
  let o ← rt'.heap p
  if rt'.gcPhase = .removeCycles ∧ o.refCount ≠ 0 then
    return { rt'.set p (some { o with content := .header o.content.gcObjType }) with
      gcZeroRefCountList := rt'.gcZeroRefCountList ++ [p] }
  else rt'.jsFreeRT p

/-- `free_object`. -/
def freeObject (rt : Runtime) (p : Addr) : Option Runtime := do
  let o ← rt.heap p
  match o.content with
  | .jsObject shape props data =>
    let marked := rt.set p (some { o with freeMark := true })
    let freed ← freePointers marked (props.flatMap JSProperty.free)
    let freed ← jsFreeShape freed shape
    let _ ← data.inspected.mapM (jsIsLiveObject freed)
    let freed ← freePointers freed data.finalizer
    freeHeader freed p
  | _ => none

/-- `free_function_bytecode`. -/
def freeFunctionBytecode (rt : Runtime) (p : Addr) : Option Runtime := do
  let o ← rt.heap p
  match o.content with
  | .functionBytecode cpool realm =>
    let freed ← freePointers rt (cpool.map .value)
    let freed ← freePointers freed (realm.toList.map .context)
    freeHeader freed p
  | _ => none

/-- `free_gc_object`. -/
def freeGCObject (rt : Runtime) (p : Addr) : Option Runtime := do
  let o ← rt.heap p
  match o.content.gcObjType with
  | .jsObject => freeObject rt p
  | .functionBytecode => freeFunctionBytecode rt p
  | _ => none

/-- The loop of `free_zero_refcount`. -/
def freeZeroLoop : Nat → Runtime → Option Runtime
  | fuel, rt =>
    match rt.gcZeroRefCountList, fuel with
    | [], _ => some rt
    | _ :: _, 0 => none
    | p :: _, fuel + 1 => do
      let o ← rt.heap p
      guard (o.refCount = 0)
      let rt' ← freeGCObject rt p
      freeZeroLoop fuel rt'

/-- `free_zero_refcount`. Every round frees an object that was listed when it began. -/
def freeZeroRefcount (rt : Runtime) : Option Runtime := do
  let fuel := rt.gcObjList.length + rt.gcZeroRefCountList.length
  let rt' ← freeZeroLoop fuel { rt with gcPhase := .decref }
  return { rt' with gcPhase := .none }

/-- `JS_FreeValueRT`. -/
def jsFreeValueRT (rt : Runtime) (v : JSValue) : Option Runtime := do
  match gcAddr? v with
  | none => return rt
  | some p =>
    let (rt', o) ← decrement rt p
    if o.refCount = 0 then
      let queued := queueZero rt' p
      if rt.gcPhase = .none then freeZeroRefcount queued else return queued
    else return rt'

end Freeing

section Collecting

def nextIn : List Addr → Addr → Option Addr
  | [], _ => none
  | x :: rest, p => if x = p then rest.head? else nextIn rest p

/-- `list_for_each_safe`: the next link is read before the body runs. When the body moves
    that link to another list the loop runs away. -/
def listForEachSafe (list : Runtime → List Addr) (body : Runtime → Addr → Option Runtime) :
    Nat → Option Addr → Runtime → Option Runtime
  | _, none, rt => some rt
  | 0, some _, _ => none
  | fuel + 1, some el, rt => do
    let el1 := nextIn (list rt) el
    let rt' ← body rt el
    guard (∀ p ∈ el1, p ∈ list rt')
    listForEachSafe list body fuel el1 rt'

/-- `list_for_each`: the next link is read after the body has run. -/
def listForEach (list : Runtime → List Addr) (body : Runtime → Addr → Option Runtime) :
    Nat → Option Addr → Runtime → Option Runtime
  | _, none, rt => some rt
  | 0, some _, _ => none
  | fuel + 1, some el, rt => do
    let rt' ← body rt el
    guard (el ∈ list rt')
    listForEach list body fuel (nextIn (list rt') el) rt'

/-- `mark_children`. -/
def markChildren (markFunc : Runtime → Addr → Option Runtime) (rt : Runtime) (p : Addr) :
    Option Runtime := do
  let o ← rt.heap p
  o.content.children.foldlM markFunc rt

/-- `list_add_tail(&p->link, &rt->tmp_obj_list)` after `list_del`. -/
def moveToTmp (rt : Runtime) (p : Addr) : Runtime :=
  let rt' := rt.listDel p
  { rt' with tmpObjList := rt'.tmpObjList ++ [p] }

/-- `gc_decref_child`. -/
def gcDecrefChild (rt : Runtime) (p : Addr) : Option Runtime := do
  let (rt', o) ← decrement rt p
  return if o.refCount = 0 ∧ o.mark then moveToTmp rt' p else rt'

/-- The body of the loop of `gc_decref`. -/
def gcDecrefBody (rt : Runtime) (p : Addr) : Option Runtime := do
  let o ← rt.heap p
  guard (o.mark = false)
  let rt' ← markChildren gcDecrefChild rt p
  let o' ← rt'.heap p
  let marked := rt'.set p (some { o' with mark := true })
  return if o'.refCount = 0 then moveToTmp marked p else marked

/-- `gc_decref`. -/
def gcDecref (rt : Runtime) : Option Runtime :=
  listForEachSafe Runtime.gcObjList gcDecrefBody rt.gcObjList.length rt.gcObjList.head?
    { rt with tmpObjList := [] }

/-- `gc_scan_incref_child`. -/
def gcScanIncrefChild (rt : Runtime) (p : Addr) : Option Runtime := do
  let o ← rt.heap p
  let o' := { o with refCount := o.refCount + 1 }
  if o'.refCount = 1 then
    let rt' := (rt.set p (some { o' with mark := false })).listDel p
    return { rt' with gcObjList := rt'.gcObjList ++ [p] }
  else return rt.set p (some o')

/-- `gc_scan_incref_child2`. -/
def gcScanIncrefChild2 (rt : Runtime) (p : Addr) : Option Runtime := do
  let o ← rt.heap p
  return rt.set p (some { o with refCount := o.refCount + 1 })

/-- The body of the first loop of `gc_scan`. -/
def gcScanBody (rt : Runtime) (p : Addr) : Option Runtime := do
  let o ← rt.heap p
  guard (0 < o.refCount)
  markChildren gcScanIncrefChild (rt.set p (some { o with mark := false })) p

/-- `gc_scan`. Both loops together visit every listed object once. -/
def gcScan (rt : Runtime) : Option Runtime := do
  let fuel := rt.gcObjList.length + rt.tmpObjList.length
  let kept ← listForEach Runtime.gcObjList gcScanBody fuel rt.gcObjList.head? rt
  listForEach Runtime.tmpObjList (markChildren gcScanIncrefChild2) fuel kept.tmpObjList.head? kept

/-- The first loop of `gc_free_cycles`. -/
def gcFreeLoop : Nat → Runtime → Option Runtime
  | fuel, rt =>
    match rt.tmpObjList, fuel with
    | [], _ => some rt
    | _ :: _, 0 => none
    | p :: _, fuel + 1 => do
      let o ← rt.heap p
      match o.content.gcObjType with
      | .jsObject | .functionBytecode => do
        let rt' ← freeGCObject rt p
        gcFreeLoop fuel rt'
      | _ =>
        let rt' := rt.listDel p
        gcFreeLoop fuel { rt' with gcZeroRefCountList := rt'.gcZeroRefCountList ++ [p] }

def gcFreeHeader (rt : Runtime) (p : Addr) : Option Runtime := do
  let o ← rt.heap p
  guard (o.content.gcObjType = .jsObject ∨ o.content.gcObjType = .functionBytecode)
  rt.jsFreeRT p

/-- `gc_free_cycles`. -/
def gcFreeCycles (rt : Runtime) : Option Runtime := do
  let rt' ← gcFreeLoop rt.tmpObjList.length { rt with gcPhase := .removeCycles }
  let rt' := { rt' with gcPhase := .none }
  let freed ← rt'.gcZeroRefCountList.foldlM gcFreeHeader rt'
  return { freed with gcZeroRefCountList := [] }

/-- `JS_RunGC`. -/
def jsRunGC (rt : Runtime) : Option Runtime := do
  let decremented ← gcDecref rt
  let scanned ← gcScan decremented
  gcFreeCycles scanned

end Collecting
end QuickJSBridge.Collector
