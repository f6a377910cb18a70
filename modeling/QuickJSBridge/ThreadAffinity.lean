import QuickJSBridge.ObjectAccounts

/- Which thread a JNI call is made for, and on whose stack JS code runs. Operations are given the
   environment of their caller, but callbacks, finalizers and the report of rejections use the one
   that the constructor saved, and the engine keeps the stack base of that thread. -/
namespace QuickJSBridge
open HostProgram ReentrantMachine

section Environments

def Prim.env : Prim → Option JNIEnv
  | .getStringUTFChars env _ | .newStringUTF env _ | .valueOf env _ | .unbox env _ => some env
  | .newObject env _ _ _ _ | .hashCode env _ | .exceptionCheck env | .throw env _ => some env
  -- CallObjectMethod on callFunctionBack
  | .callFunctionMapGet _ => some .saved
  | _ => none

/-- A JNI call through this environment or through `jniEnv`, or no JNI call. -/
def Prim.through (env : JNIEnv) (c : Prim) : Prop :=
  ∀ other, c.env = some other → other = env ∨ other = .saved

abbrev Through {R : Type} (env : JNIEnv) (p : Program R) : Prop := p.Within (Prim.through env) fun _ => True

variable {env : JNIEnv} {c : Prim}

theorem through_own (own : c.env = some env) : c.through env := by
  intro other same
  exact Or.inl (Option.some.inj (same.symm.trans own))

theorem through_saved (saved : c.env = some .saved) : c.through env := by
  intro other same
  exact Or.inr (Option.some.inj (same.symm.trans saved))

theorem through_none (silent : c.env = none) : c.through env := by
  intro other same
  cases silent.symm.trans same

theorem through_act (through : c.through env) : Through env (act c) := ⟨through, fun _ => trivial⟩
theorem through_ask (through : c.through env) : Through env (ask c) := ⟨through, fun _ => trivial⟩
theorem through_askInt (through : c.through env) : Through env (askInt c) :=
  ⟨through, fun _ => trivial⟩
theorem through_askValue (through : c.through env) : Through env (askValue c) :=
  ⟨through, fun _ => trivial⟩
theorem through_askJava (through : c.through env) : Through env (askJava c) :=
  ⟨through, fun _ => trivial⟩

theorem through_enterValue (e : EngineCall) : Through env (enterValue e) :=
  ⟨trivial, fun _ => trivial⟩
theorem through_enterInt (e : EngineCall) : Through env (enterInt e) := ⟨trivial, fun _ => trivial⟩
theorem through_enterText (e : EngineCall) : Through env (enterText e) := ⟨trivial, fun _ => trivial⟩

theorem through_getStringUTFChars (s : JavaString) : Through env (getStringUTFChars env s) :=
  ⟨through_own rfl, fun _ => trivial⟩

theorem through_newStringUTF (bytes : Option (List UInt8)) :
    Through env (newStringUTF env bytes) := by
  cases bytes with
  | none => trivial
  | some bytes => exact through_askJava (through_own rfl)

theorem through_when {p : Program Unit} {condition : Bool} (through : Through env p) :
    Through env (p.when condition) := by
  cases condition with
  | true => exact through
  | false => trivial

theorem through_freeValue (v : JSValue) : Through env (freeValue v) := by
  unfold freeValue
  split
  · trivial
  · exact ⟨trivial, fun _ => trivial⟩

theorem through_getJSErrorStr (error : JSValue) : Through env (getJSErrorStr error) := by
  apply Prog.within_mono (asks_getJSErrorStr error)
  · intro c asks
    apply through_none
    cases c with
    | getGlobalObject => rfl
    | isError v => rfl
    | _ => cases asks
  · exact fun _ _ => trivial

theorem through_throwJSException (message : List Piece) : Through env (throwJSException env message) := by
  apply Prog.within_bind (through_ask (through_own rfl))
  intro pending
  split
  · trivial
  · exact through_act (through_own rfl)

theorem through_getPendingErrorStr : Through env getPendingErrorStr := by
  apply Prog.within_bind (through_askValue (through_none rfl))
  intro error
  apply Prog.within_bind (through_getJSErrorStr error)
  intro text
  exact Prog.within_bind (through_freeValue error) fun _ => trivial

theorem through_throwPendingJSException : Through env (throwPendingJSException env) :=
  Prog.within_bind through_getPendingErrorStr through_throwJSException

theorem through_reported {R : Type} (r : R) :
    Through env ((throwPendingJSException env).bind fun _ => .ret r) :=
  Prog.within_bind through_throwPendingJSException fun _ => trivial

theorem through_rejectionsText (fuel : Nat) (error : List Piece) :
    Through env (rejectionsText fuel error) := by
  induction fuel generalizing error with
  | zero => trivial
  | succ fuel ih =>
    apply Prog.within_bind (through_ask (through_none rfl))
    intro empty
    split
    · trivial
    · apply Prog.within_bind (through_askValue (through_none rfl))
      intro reason
      apply Prog.within_bind (through_getJSErrorStr reason)
      intro text
      apply Prog.within_bind (through_freeValue reason)
      intro _
      exact Prog.within_bind (through_act (through_none rfl)) fun _ => ih _

theorem through_throwIfUnhandledRejections (fuel : Nat) :
    Through env (throwIfUnhandledRejections fuel) := by
  apply Prog.within_bind (through_rejectionsText fuel [])
  intro error
  split
  · trivial
  · have reported : Through .saved (throwJSException .saved
        (.literal "UnhandledPromiseRejectionException: " :: error)) := through_throwJSException _
    apply Prog.within_bind
    · apply Prog.within_mono reported
      · intro c saved other same
        exact Or.inr ((saved other same).elim id id)
      · exact fun _ _ => trivial
    · exact fun _ => trivial

theorem through_executePendingJob : Through env executePendingJob := by
  apply Prog.within_bind (through_ask (through_none rfl))
  intro empty
  split
  · trivial
  · apply Prog.within_bind (through_act (through_none rfl))
    intro _
    apply Prog.within_bind (through_enterValue .jobFunc)
    intro res
    exact Prog.within_bind (through_freeValue res) fun _ => trivial

theorem through_pendingJobRounds (fuel : Nat) : Through env (pendingJobRounds env fuel) := by
  induction fuel with
  | zero => trivial
  | succ fuel ih =>
    apply Prog.within_bind through_executePendingJob
    intro err
    split
    · exact ih
    · split
      · apply Prog.within_bind through_getPendingErrorStr
        intro error
        exact Prog.within_bind (through_throwJSException error) fun _ => trivial
      · trivial

theorem through_executePendingJobLoop (fuel : Nat) :
    Through env (executePendingJobLoop env fuel) := by
  apply Prog.within_bind (through_ask (through_own rfl))
  intro pending
  split
  · trivial
  · apply Prog.within_bind (through_pendingJobRounds fuel)
    intro finished
    split
    · apply Prog.within_bind (through_act (through_none rfl))
      intro _
      exact Prog.within_bind (through_throwIfUnhandledRejections fuel) fun _ => trivial
    · trivial

theorem through_toJavaObject (thisObj value : JSValue) (nonJsCallback : Bool) :
    Through env (toJavaObject env thisObj value nonJsCallback) := by
  have handle : Through env (newHandle env thisObj value (!nonJsCallback)) := by
    apply Prog.within_bind (through_ask (through_none rfl))
    intro isFunction
    split
    · exact through_askJava (through_own rfl)
    · apply Prog.within_bind (through_enterInt (.isArray value))
      intro isArray
      split
      · exact through_askJava (through_own rfl)
      · exact through_askJava (through_own rfl)
  have keep : Through env (keepValue value) := by
    apply Prog.within_bind (through_ask (through_none rfl))
    intro known
    split
    · exact through_freeValue value
    · exact through_act (through_none rfl)
  cases value with
  | string p s =>
    apply Prog.within_bind (through_enterText _)
    intro string
    apply Prog.within_bind (through_newStringUTF string)
    intro result
    exact Prog.within_bind (through_when (through_freeValue _)) fun _ => trivial
  | object p =>
    apply Prog.within_bind handle
    intro result
    exact Prog.within_bind (through_when keep) fun _ => trivial
  | float64 d =>
    simp only [toJavaObject]
    split
    · exact through_askJava (through_own rfl)
    · exact through_askJava (through_own rfl)
  | bool b => exact through_askJava (through_own rfl)
  | int n => exact through_askJava (through_own rfl)
  | bigInt p n => exact through_askJava (through_own rfl)
  | _ => trivial

theorem through_toJSValue (o : Option JavaObject) : Through env (toJSValue env o) := by
  have unbox : ∀ (o : JavaObject) (v : JSValue),
      Through env ((act (.unbox env o)).bind fun _ => .ret v) := by
    intro o v
    exact Prog.within_bind (through_act (through_own rfl)) fun _ => trivial
  cases o with
  | none => trivial
  | some o =>
    cases o with
    | string s => exact Prog.within_bind (through_getStringUTFChars s) fun _ => through_enterValue _
    | double d => exact unbox (.double d) _
    | integer n => exact unbox (.integer n) _
    | boolean b => exact unbox (.boolean b) _
    | handle id cls pointer objPointer => exact unbox (.handle id cls pointer objPointer) _
    | long n =>
      apply Prog.within_bind (through_act (through_own rfl))
      intro _
      split
      · exact through_enterValue _
      · trivial
    | callFunction f =>
      apply Prog.within_bind (through_enterValue _)
      intro result
      apply Prog.within_bind (through_askInt (through_saved rfl))
      intro callbackId
      exact Prog.within_bind (through_act (through_none rfl)) fun _ => trivial
    | other className =>
      exact Prog.within_bind (through_act (through_own rfl)) fun _ => trivial

end Environments

section Operations
variable {env : JNIEnv}

theorem through_globalResult (result : JSValue) :
    Through env ((askValue .getGlobalObject).bind fun global =>
      (toJavaObject env global result true).bind fun jsObj =>
      (freeValue global).bind fun _ => .ret jsObj) := by
  apply Prog.within_bind (through_askValue (through_none rfl))
  intro global
  apply Prog.within_bind (through_toJavaObject global result true)
  intro jsObj
  exact Prog.within_bind (through_freeValue global) fun _ => trivial

theorem through_evaluate (script fileName : JavaString) (fuel : Nat) :
    Through env (Wrapper.evaluate env script fileName fuel) := by
  apply Prog.within_bind (through_getStringUTFChars script)
  intro script
  apply Prog.within_bind (through_getStringUTFChars fileName)
  intro fileName
  apply Prog.within_bind (through_enterValue _)
  intro result
  split
  · exact through_reported none
  · apply Prog.within_bind (through_executePendingJobLoop fuel)
    intro finished
    split
    · exact through_globalResult result
    · exact Prog.within_bind (through_freeValue result) fun _ => trivial

theorem through_evaluateModule (script fileName : JavaString) (fuel : Nat) :
    Through env (Wrapper.evaluateModule env script fileName fuel) := by
  apply Prog.within_bind (through_getStringUTFChars script)
  intro script
  apply Prog.within_bind (through_getStringUTFChars fileName)
  intro fileName
  apply Prog.within_bind (through_enterValue _)
  intro result
  split
  · exact through_reported none
  · apply Prog.within_bind (through_executePendingJobLoop fuel)
    intro finished
    split
    · exact through_globalResult result
    · exact Prog.within_bind (through_freeValue result) fun _ => trivial

theorem through_getGlobalObject : Through env (Wrapper.getGlobalObject env) := by
  apply Prog.within_bind (through_askValue (through_none rfl))
  intro value
  apply Prog.within_bind (through_askJava (through_own rfl))
  intro result
  exact Prog.within_bind (through_freeValue value) fun _ => trivial

theorem through_getProperty (objValue : Nat) (name : JavaString) :
    Through env (Wrapper.getProperty env objValue name) := by
  apply Prog.within_bind (through_getStringUTFChars name)
  intro propsName
  apply Prog.within_bind (through_enterValue _)
  intro propsValue
  split
  · exact through_reported none
  · exact through_toJavaObject _ propsValue true

theorem through_callArguments (args : List (Option JavaObject)) (arguments freeArguments : List JSValue) :
    Through env (Wrapper.callArguments env args arguments freeArguments) := by
  induction args generalizing arguments freeArguments with
  | nil => trivial
  | cons arg args ih =>
    apply Prog.within_bind (through_ask (through_own rfl))
    intro pending
    split
    · trivial
    · apply Prog.within_bind (through_toJSValue arg)
      intro jsArg
      split
      · trivial
      · exact ih _ _

theorem through_freeValues (values : List JSValue) : Through env (Wrapper.freeValues values) := by
  induction values with
  | nil => trivial
  | cons v values ih => exact Prog.within_bind (through_freeValue v) fun _ => ih

theorem through_callWith (func : Nat) (jsObj : JSValue) (arguments freeArguments : List JSValue)
    (fuel : Nat) : Through env (Wrapper.callWith env func jsObj arguments freeArguments fuel) := by
  apply Prog.within_bind (through_enterValue _)
  intro ret
  split
  · exact through_reported none
  · apply Prog.within_bind (through_freeValues freeArguments)
    intro _
    apply Prog.within_bind (through_executePendingJobLoop fuel)
    intro finished
    split
    · exact through_toJavaObject jsObj ret true
    · exact Prog.within_bind (through_freeValue ret) fun _ => trivial

theorem through_call (func thisObj : Nat) (args : List (Option JavaObject)) (fuel : Nat) :
    Through env (Wrapper.call env func thisObj args fuel) := by
  apply Prog.within_bind (through_callArguments args [] [])
  intro converted
  cases converted with
  | none => trivial
  | some both => exact through_callWith func _ both.1 both.2 fuel

theorem through_jsonStringify (objValue : Nat) :
    Through env (Wrapper.jsonStringify env objValue) := by
  apply Prog.within_bind (through_enterValue _)
  intro obj
  split
  · exact through_reported none
  · apply Prog.within_bind (through_enterText _)
    intro result
    exact Prog.within_bind (through_freeValue obj) fun _ => through_newStringUTF result

theorem through_length (objValue : Nat) : Through env (Wrapper.length env objValue) := by
  apply Prog.within_bind (through_enterValue _)
  intro length
  split
  · exact through_reported (-1)
  · exact Prog.within_bind (through_freeValue length) fun _ => trivial

theorem through_get (objValue : Nat) (index : Int32) :
    Through env (Wrapper.get env objValue index) := by
  apply Prog.within_bind (through_enterValue _)
  intro child
  exact through_toJavaObject _ child true

theorem through_set (thisObj : Nat) (value : Option JavaObject) (index : Int32) :
    Through env (Wrapper.set env thisObj value index) := by
  apply Prog.within_bind (through_toJSValue value)
  intro child
  apply Prog.within_bind (through_when (through_act (through_none rfl)))
  intro _
  exact Prog.within_bind (through_enterInt _) fun _ => trivial

theorem through_prepareProperty (propName : List UInt8) (value : Option JavaObject)
    (propValue : JSValue) : Through env (Wrapper.prepareProperty propName value propValue) := by
  unfold Wrapper.prepareProperty
  split
  · exact through_act (through_none rfl)
  · exact through_act (through_none rfl)
  · exact Prog.within_bind (through_enterInt _) fun _ => trivial
  · trivial

theorem through_setProperty (thisObj : Nat) (name : JavaString) (value : Option JavaObject) :
    Through env (Wrapper.setProperty env thisObj name value) := by
  apply Prog.within_bind (through_getStringUTFChars name)
  intro propName
  apply Prog.within_bind (through_toJSValue value)
  intro propValue
  apply Prog.within_bind (through_prepareProperty propName value propValue)
  intro _
  exact Prog.within_bind (through_enterInt _) fun _ => trivial

theorem through_freeValueNative (value : Nat) : Through env (Wrapper.freeValue value) := by
  apply Prog.within_bind (through_ask (through_none rfl))
  intro known
  split
  · exact through_freeValue _
  · trivial

theorem through_parseJSON (json : JavaString) : Through env (Wrapper.parseJSON env json) := by
  apply Prog.within_bind (through_getStringUTFChars json)
  intro json
  apply Prog.within_bind (through_enterValue _)
  intro jsonObj
  split
  · exact through_reported none
  · exact through_toJavaObject _ jsonObj true

theorem through_compile (source fileName : JavaString) (isModule : Bool) :
    Through env (Wrapper.compile env source fileName isModule) := by
  apply Prog.within_bind (through_getStringUTFChars source)
  intro sourceCode
  apply Prog.within_bind (through_getStringUTFChars fileName)
  intro fileName
  apply Prog.within_bind (through_enterValue _)
  intro compiled
  split
  · exact through_reported none
  · apply Prog.within_bind (through_enterText _)
    intro buffer
    apply Prog.within_bind (through_when through_throwPendingJSException)
    intro _
    exact Prog.within_bind (through_freeValue compiled) fun _ => trivial

theorem through_execute (byteCode : List UInt8) (fuel : Nat) :
    Through env (Wrapper.execute env byteCode fuel) := by
  apply Prog.within_bind (through_enterValue _)
  intro obj
  split
  · exact through_reported none
  · apply Prog.within_bind (through_enterInt _)
    intro resolved
    split
    · trivial
    · apply Prog.within_bind (through_enterValue _)
      intro val
      apply Prog.within_bind (through_executePendingJobLoop fuel)
      intro finished
      split
      · split
        · exact through_reported none
        · exact through_toJavaObject obj val true
      · exact Prog.within_bind (through_freeValue val) fun _ => trivial

theorem through_evalBufModule (buf fileName : List UInt8) :
    Through env (Wrapper.evalBufModule buf fileName) := by
  have dump : Through env Wrapper.jsStdDumpError := by
    apply Prog.within_bind (through_askValue (through_none rfl))
    intro exceptionVal
    apply Prog.within_bind (through_ask (through_none rfl))
    intro isError
    have text : ∀ v, Through env (Wrapper.jsDumpObj v) := by
      intro v
      exact Prog.within_bind (through_enterText _) fun _ => trivial
    have stack : Through env (Wrapper.jsDumpStack exceptionVal) := by
      apply Prog.within_bind (through_enterValue _)
      intro val
      apply Prog.within_bind (through_when (text val))
      exact fun _ => through_freeValue val
    apply Prog.within_bind (text exceptionVal)
    intro _
    exact Prog.within_bind (through_when stack) fun _ => through_freeValue exceptionVal
  apply Prog.within_bind (through_enterValue _)
  intro compiled
  have evaluated : Through env (Wrapper.evalCompiled compiled) := by
    unfold Wrapper.evalCompiled
    split
    · trivial
    · exact ⟨trivial, fun _ => through_enterValue _⟩
  apply Prog.within_bind evaluated
  intro val
  exact Prog.within_bind (through_when dump) fun _ => through_freeValue val

theorem through_create (t : ThreadId) : Through env (Wrapper.create t) := by
  apply Prog.within_bind (through_act (through_none rfl))
  intro _
  apply Prog.within_bind (through_act (through_none rfl))
  intro _
  have context : Through env (enter .newCustomContext) := ⟨trivial, fun _ => trivial⟩
  apply Prog.within_bind context
  intro _
  apply Prog.within_bind (through_evalBufModule _ _)
  intro _
  exact Prog.within_bind (through_act (through_none rfl)) fun _ => through_act (through_none rfl)

theorem through_javaResult {p : Program (Option JavaObject)} (through : Through env p) :
    Through env (javaResult p) :=
  Prog.within_bind through fun _ => trivial

theorem through_unitResult {p : Program Unit} (through : Through env p) :
    Through env (unitResult p) :=
  Prog.within_bind through fun _ => trivial

theorem through_nonNull {argument : Option JavaString} {message : String}
    {p : JavaString → Program Answer} (through : ∀ s, Through env (p s)) :
    Through env (nonNull env argument message p) := by
  cases argument with
  | none => exact Prog.within_bind (through_act (through_own rfl)) fun _ => trivial
  | some s => exact through s

theorem through_program (t : ThreadId) (op : NativeOp) : Through (.ofThread t) (op.program t) := by
  cases op with
  | createContext => exact through_unitResult (through_create t)
  | runGC => exact through_unitResult ⟨trivial, fun _ => trivial⟩
  | evaluate script fileName fuel =>
    apply through_nonNull
    intro script
    apply through_nonNull
    intro fileName
    exact through_javaResult (through_evaluate script fileName fuel)
  | evaluateModule script fileName fuel =>
    apply through_nonNull
    intro script
    apply through_nonNull
    intro fileName
    exact through_javaResult (through_evaluateModule script fileName fuel)
  | compile source fileName isModule =>
    apply through_nonNull
    intro source
    apply through_nonNull
    intro fileName
    exact Prog.within_bind (through_compile source fileName isModule) fun _ => trivial
  | execute bytecode fuel =>
    cases bytecode with
    | none => trivial
    | some bytecode => exact through_javaResult (through_execute bytecode fuel)
  | getGlobalObject => exact through_javaResult through_getGlobalObject
  | getProperty objValue name =>
    apply through_nonNull
    intro name
    exact through_javaResult (through_getProperty objValue name)
  | setProperty objValue name value =>
    apply through_nonNull
    intro name
    exact through_unitResult (through_setProperty objValue name value)
  | length objValue => exact Prog.within_bind (through_length objValue) fun _ => trivial
  | get objValue index => exact through_javaResult (through_get objValue index)
  | set objValue value index => exact through_unitResult (through_set objValue value index)
  | freeValue objValue => exact through_unitResult (through_freeValueNative objValue)
  | call func thisObj args fuel => exact through_javaResult (through_call func thisObj args fuel)
  | stringify objValue => exact through_javaResult (through_jsonStringify objValue)
  | parseJSON json =>
    apply through_nonNull
    intro json
    exact through_javaResult (through_parseJSON json)

theorem through_callbackArguments (thisVal : JSValue) (argv : List JSValue) :
    Through .saved (Wrapper.callbackArguments thisVal argv) := by
  induction argv with
  | nil => trivial
  | cons v argv ih =>
    apply Prog.within_bind (through_toJavaObject thisVal v false)
    intro arg
    exact Prog.within_bind ih fun _ => trivial

theorem through_callFunctionBack (callFunctionId : Int32) (args : List (Option JavaObject)) :
    Through .saved (Wrapper.callFunctionBack callFunctionId args) := by
  apply Prog.within_bind (through_askJava (through_saved rfl))
  intro found
  split
  · refine Prog.within_bind ⟨trivial, fun _ => trivial⟩ fun ret => ?_
    split
    · exact Prog.within_bind (through_act (through_none rfl)) fun _ => trivial
    · trivial
  · exact Prog.within_bind (through_act (through_saved rfl)) fun _ => trivial

theorem through_jsFnCallback (func thisObj : JSValue) (argv : List JSValue) :
    Through .saved (jsFnCallback func thisObj argv) := by
  apply Prog.within_bind (through_askInt (through_none rfl))
  intro callbackId
  apply Prog.within_bind (through_act (through_none rfl))
  intro _
  apply Prog.within_bind (through_callbackArguments thisObj argv)
  intro javaArgs
  apply Prog.within_bind (through_callFunctionBack callbackId javaArgs)
  intro result
  apply Prog.within_bind (through_toJSValue result)
  intro jsValue
  exact Prog.within_bind (through_when (through_act (through_none rfl))) fun _ => trivial

end Operations

section Threads

def World.executing (w : World) : Option ThreadId := w.monitor.map Prod.fst

def JNIEnv.threadIn (w : World) : JNIEnv → ThreadId
  | .ofThread t => t
  | .saved => w.jniEnv

/-- The thread whose stack the engine measures. `JS_NewRuntime` takes its base in the same Java
    constructor as `createContext`, and nothing calls `JS_UpdateStackTop` again. -/
def World.stackBase (w : World) : ThreadId := w.jniEnv

def finalizes (m : BridgeMoment) : Bool :=
  match change m with
  | .destroy p => (m.before.registry.callbackAt p).isSome && m.before.slot = some .wrapper
  | _ => false

def jniCall (m : BridgeMoment) : Option JNIEnv :=
  match m.action with
  | .prim c => c.env
  -- jsFuncCall starts with NewObjectArray
  | .start (.jsFnCallback _ _ _) => some .saved
  | _ => if finalizes m then some .saved else none

def entersJS (m : BridgeMoment) : Bool :=
  match m.action with
  | .depart (.engine e) => e.runsJS
  | _ => false

structure Affine (m : BridgeMoment) : Prop where
  env : ∀ env, jniCall m = some env → m.before.executing = some (env.threadIn m.before)
  stack : entersJS m = true → m.before.executing = some m.before.stackBase

/-- What goes through `jniEnv` or enters JS code is done by the thread that made the wrapper. -/
def AtHome (m : BridgeMoment) : Prop :=
  jniCall m = some .saved ∨ entersJS m = true → m.before.executing = some m.before.jniEnv

inductive GlobalRef where
  | jniThiz
  | objectClass
  | doubleClass
  | integerClass
  | longClass
  | booleanClass
  | stringClass
  | jsObjectClass
  | jsArrayClass
  | jsFunctionClass
  | jsCallFunctionClass
  | quickjsContextClass

def globalRefs : List GlobalRef :=
  [.jniThiz, .objectClass, .doubleClass, .integerClass, .longClass, .booleanClass, .stringClass,
    .jsObjectClass, .jsArrayClass, .jsFunctionClass, .jsCallFunctionClass, .quickjsContextClass]

inductive DestructorCall where
  | removeCallFunction (callFunctionId : Int32)
  | deleteGlobalRef (ref : GlobalRef)

/-- The end of a wrapper, by the thread that calls `destroy`. The callbacks that are left are
    finalized in the order the engine frees their functions. -/
structure Destruction where
  thread : ThreadId
  finalized : List Int32

def Destruction.calls (d : Destruction) : List (JNIEnv × DestructorCall) :=
  d.finalized.map (fun id => (.saved, .removeCallFunction id)) ++
    globalRefs.map fun ref => (.saved, .deleteGlobalRef ref)

def Destruction.Affine (d : Destruction) (w : World) : Prop :=
  ∀ call ∈ d.calls, call.1.threadIn w = d.thread

theorem destruction_affine_iff (d : Destruction) (w : World) :
    d.Affine w ↔ d.thread = w.jniEnv := by
  constructor
  · intro affine
    exact (affine (.saved, .deleteGlobalRef .jniThiz) (by simp [Destruction.calls, globalRefs])).symm
  · intro home call member
    have saved : call.1 = .saved := by
      rcases List.mem_append.1 member with finalizer | deletion
      · obtain ⟨id, -, rfl⟩ := List.mem_map.1 finalizer
        rfl
      · obtain ⟨ref, -, rfl⟩ := List.mem_map.1 deletion
        rfl
    rw [saved]
    exact home.symm

def homeEnv : BridgeOp → JNIEnv
  | .native t => .ofThread t
  | .jsFnCallback _ _ _ => .saved

abbrev GivenEnv (o : BridgeOp) (c : Prim) : Prop := c.through (homeEnv o)

theorem start_through {o : BridgeOp} {ctx : Option ForeignCall} {w w' : World}
    {p : Program Answer} (starts : start o ctx w = some (w', p)) :
    Bridge.Bounded GivenEnv (fun _ _ => True) o p := by
  cases o with
  | native t =>
    replace starts : startNative t w = some (w', p) := starts
    unfold startNative at starts
    split at starts
    next op next frames _ =>
      split at starts
      next => cases starts
      next =>
        cases of_ite_some starts
        exact through_program t op
    next => cases starts
  | jsFnCallback func thisObj argv =>
    replace starts : startCallback func thisObj argv ctx w = some (w', p) := starts
    unfold startCallback at starts
    split at starts
    next =>
      cases of_ite_some starts
      exact Prog.within_bind (through_jsFnCallback _ thisObj argv) fun _ => trivial
    next => cases starts

def natives : List (Frame Prim ForeignCall Answer BridgeOp) → List ThreadId
  | [] => []
  | .caller (.native t) :: rest => t :: natives rest
  | _ :: rest => natives rest

def heldBy : Option (ThreadId × Nat) → List ThreadId
  | none => []
  | some (t, n) => List.replicate (n + 1) t

theorem heldBy_enter {t : ThreadId} {monitor : Option (ThreadId × Nat)} {monitor' : ThreadId × Nat}
    (enters : enterMonitor t monitor = some monitor') :
    heldBy (some monitor') = t :: heldBy monitor := by
  unfold enterMonitor at enters
  split at enters
  · cases enters
    rfl
  · split at enters
    next owner n same =>
      cases enters
      subst same
      rfl
    next => cases enters

theorem heldBy_leave {t : ThreadId} {rest : List ThreadId} {monitor : Option (ThreadId × Nat)}
    (held : heldBy monitor = t :: rest) : heldBy (leaveMonitor monitor) = rest := by
  cases monitor with
  | none => cases held
  | some owner =>
    obtain ⟨u, n⟩ := owner
    cases n with
    | zero =>
      cases held
      rfl
    | succ n =>
      cases held
      rfl

theorem monitor_exec {c : Prim} {a : Answer} {w w' : World} (acts : exec c w = some (a, w')) :
    w'.monitor = w.monitor := by
  cases counts : c.onHeap with
  | true =>
    obtain ⟨heap, rfl⟩ := exec_onHeap acts counts
    rfl
  | false =>
    cases c with
    | takeJob =>
      simp only [exec] at acts
      split at acts
      · cases acts
      · cases acts
        rfl
    | _ => first | (cases counts; done) | (cases acts; rfl)

theorem monitor_depart {e : ForeignCall} {w w' : World} (leaves : depart e w = some w') :
    w'.monitor = w.monitor := by
  cases e with
  | engine e => exact congrArg Sideline.monitor (sideline_depart leaves)
  | java f args =>
    cases leaves
    rfl

def MonitorHeld (c : BridgeConfig) : Prop := natives c.stack = heldBy c.state.monitor

theorem start_monitor {o : BridgeOp} {ctx : Option ForeignCall} {w w' : World} {p : Program Answer}
    {stack : List (Frame Prim ForeignCall Answer BridgeOp)} (held : natives stack = heldBy w.monitor)
    (starts : start o ctx w = some (w', p)) : natives (.caller o :: stack) = heldBy w'.monitor := by
  cases o with
  | native t =>
    replace starts : startNative t w = some (w', p) := starts
    unfold startNative at starts
    split at starts
    next =>
      split at starts
      next => cases starts
      next monitor enters =>
        cases of_ite_some starts
        exact (congrArg (t :: ·) held).trans (heldBy_enter enters).symm
    next => cases starts
  | jsFnCallback func thisObj argv =>
    replace starts : startCallback func thisObj argv ctx w = some (w', p) := starts
    unfold startCallback at starts
    split at starts
    next =>
      cases of_ite_some starts
      exact held
    next => cases starts

theorem finish_monitor {o : BridgeOp} {a : Answer} {w w' : World}
    {stack : List (Frame Prim ForeignCall Answer BridgeOp)}
    (held : natives (.caller o :: stack) = heldBy w.monitor) (done : finish o a w = some w') :
    natives stack = heldBy w'.monitor := by
  cases o with
  | native t =>
    replace done : finishNative t a w = some w' := done
    unfold finishNative at done
    split at done
    next =>
      cases done
      exact (heldBy_leave held.symm).symm
    next => cases done
  | jsFnCallback func thisObj argv =>
    have same := sideline_onValue (fun _ _ => sideline_toHeap) done
    exact held.trans (congrArg (heldBy ∘ Sideline.monitor) same).symm

theorem step_monitorHeld {l : BridgeLabel} {c c' : BridgeConfig} (held : MonitorHeld c)
    (taken : bridge.step l c = some c') : MonitorHeld c' := by
  replace held : natives c.stack = heldBy c.state.monitor := held
  cases Bridge.step_taken taken with
  | event acts => exact held.trans (congrArg (heldBy ∘ Sideline.monitor) (sideline_event acts)).symm
  | call called starts => exact start_monitor held starts
  | answer back => exact held.trans (congrArg (heldBy ∘ Sideline.monitor) (sideline_deliver back)).symm
  | prim acts => exact held.trans (congrArg heldBy (monitor_exec acts)).symm
  | depart leaves => exact held.trans (congrArg heldBy (monitor_depart leaves)).symm
  | finish done => exact finish_monitor held done

end Threads

section Runs

structure Housed (c : BridgeConfig) : Prop where
  monitor : MonitorHeld c
  bounded : Bridge.BoundedConfig GivenEnv (fun _ _ => True) c

theorem step_housed {l : BridgeLabel} {c c' : BridgeConfig} (housed : Housed c)
    (taken : bridge.step l c = some c') : Housed c' := by
  constructor
  · exact step_monitorHeld housed.monitor taken
  · exact Bridge.step_bounded housed.bounded (fun _ _ _ _ _ starts _ => start_through starts) taken

theorem own_affine {l : BridgeLabel} {c : BridgeConfig} {m : BridgeMoment} {t : ThreadId}
    (housed : Housed c) (named : moment l c = some m) (calls : jniCall m = some (.ofThread t)) :
    c.state.executing = some t := by
  cases acts : m.action with
  | prim q =>
    obtain ⟨next, running⟩ := moment_prim named acts
    obtain ⟨o, rest, top, given⟩ := Bridge.prim_permitted housed.bounded running
    have env : q.env = some (.ofThread t) := by
      simpa only [jniCall, acts] using calls
    rcases given _ env with own | saved
    · cases o with
      | native t' =>
        cases own
        have held : natives c.stack = heldBy c.state.monitor := housed.monitor
        rw [top] at held
        cases owner : c.state.monitor with
        | none =>
          rw [owner] at held
          cases held
        | some both =>
          rw [owner] at held
          have first : t = both.1 := (List.cons.inj held).1
          rw [first, World.executing, owner]
          rfl
      | jsFnCallback func thisObj argv => cases own
    · cases saved
  | start o =>
    exfalso
    cases o with
    | native t' =>
      simp [jniCall, acts, finalizes, change] at calls
    | jsFnCallback func thisObj argv => simp [jniCall, acts] at calls
  | _ =>
    exfalso
    simp only [jniCall, acts] at calls
    split at calls
    · cases calls
    · cases calls

theorem affine_iff {l : BridgeLabel} {c : BridgeConfig} {m : BridgeMoment} (housed : Housed c)
    (named : moment l c = some m) (same : m.before = c.state) : Affine m ↔ AtHome m := by
  constructor
  · rintro affine (saved | enters)
    · exact affine.env .saved saved
    · exact affine.stack enters
  · intro home
    constructor
    · intro env calls
      cases env with
      | ofThread t =>
        rw [same]
        exact own_affine housed named calls
      | saved => exact home (Or.inl calls)
    · exact fun enters => home (Or.inr enters)

theorem initial_housed (globalObj : Addr) (jvm : List UInt8 → JavaString) :
    Housed (initial globalObj jvm) := by
  constructor
  · exact rfl
  · exact trivial

/-- A run, and the destruction of the wrapper where it ends. -/
structure Life where
  globalObj : Addr
  jvm : List UInt8 → JavaString
  labels : List BridgeLabel
  destroyed : Option Destruction

namespace Life

def moments (life : Life) : List BridgeMoment :=
  bridge.history life.labels (initial life.globalObj life.jvm)

def EndsBy (life : Life) (d : Destruction) (w : World) : Prop :=
  life.destroyed = some d ∧ ∃ c, bridge.run life.labels (initial life.globalObj life.jvm) = some c ∧
    c.state = w

/-- Every JNI call is made for the thread that executes, and JS code runs on its stack. -/
structure Affine (life : Life) : Prop where
  moments : ∀ m ∈ life.moments, QuickJSBridge.Affine m
  destroyed : ∀ d w, life.EndsBy d w → d.Affine w

/-- The thread that made the wrapper does all that goes through `jniEnv` or enters JS code, and
    destroys the wrapper. -/
structure AtHome (life : Life) : Prop where
  moments : ∀ m ∈ life.moments, QuickJSBridge.AtHome m
  destroyed : ∀ d w, life.EndsBy d w → d.thread = w.jniEnv

end Life

theorem thread_affine_iff (life : Life) : life.Affine ↔ life.AtHome := by
  have exact : ∀ m ∈ life.moments, Affine m ↔ AtHome m := by
    intro m taken
    obtain ⟨l, d, housed, named, same⟩ := Bridge.history_invariant Housed
      (fun _ _ _ => step_housed) (initial_housed life.globalObj life.jvm) taken
    exact affine_iff housed named same
  constructor
  · intro affine
    constructor
    · exact fun m taken => (exact m taken).1 (affine.moments m taken)
    · exact fun d w ends => (destruction_affine_iff d w).1 (affine.destroyed d w ends)
  · intro home
    constructor
    · exact fun m taken => (exact m taken).2 (home.moments m taken)
    · exact fun d w ends => (destruction_affine_iff d w).2 (home.destroyed d w ends)

def callsFromOtherThread (f : JSCallFunction) : List BridgeLabel :=
  constructing ++ definesCallback f ++
  ([.event (.spawn 1 (.evaluate (some []) (some []) false 1)), .call (.native 1), .tau, .tau,
    .tau, .call (.jsFnCallback 20 .undefined [])] : List BridgeLabel)

/-- The arguments are made through the environment of thread 0. -/
theorem foreign_thread_called_back : ¬ ∀ life : Life, life.Affine := by
  intro affine
  have calls : (bridge.history (callsFromOtherThread ⟨0, 7⟩) (initial 1 fun _ => [])).any
      (fun m => decide (jniCall m = some .saved) &&
        decide (m.before.executing = some 1 ∧ m.before.jniEnv = 0)) = true := by decide
  obtain ⟨m, taken, both⟩ := List.any_eq_true.1 calls
  rw [Bool.and_eq_true, decide_eq_true_eq, decide_eq_true_eq] at both
  obtain ⟨saved, executing, home⟩ := both
  have life := affine ⟨1, fun _ => [], callsFromOtherThread ⟨0, 7⟩, none⟩
  have same := (life.moments m taken).env .saved saved
  rw [executing, JNIEnv.threadIn, home] at same
  cases same

end Runs
end QuickJSBridge
