import QuickJSBridge.GuardedCalls
import QuickJSBridge.CommandBounds

/- The values native code hands to the engine. JS_EXCEPTION is looked for wherever a value may be
   one, with one exception: what toJSValue has made is written to a property as it is. -/
namespace QuickJSBridge
open HostProgram ReentrantMachine

section Values

def EngineCall.hands : EngineCall → List JSValue
  | .getPropertyStr obj _ | .getPropertyUint32 obj _ => [obj]
  | .setPropertyStr obj _ v | .setPropertyUint32 obj _ v => [obj, v]
  | .call _ this args => this :: args
  | .evalFunction v | .jsonStringify v => [v]
  | _ => []

def EngineCall.stores : EngineCall → Option JSValue
  | .setPropertyStr _ _ v | .setPropertyUint32 _ _ v => some v
  | _ => none

def ForeignCall.careful : ForeignCall → Prop
  | .engine e => .exception ∈ e.hands → e.stores = some .exception
  | .java _ _ => True

theorem careful_silent {e : EngineCall} (silent : e.hands = []) : (ForeignCall.engine e).careful := by
  intro handed
  rw [silent] at handed
  cases handed

def Prim.canAnswer : Prim → Answer → Prop
  | .isError v, a => a.toBool = true → v ≠ .exception
  | .getGlobalObject, a => a.toValue ≠ .exception
  | _, _ => True

theorem canAnswer_exec {c : Prim} {w w' : World} {a : Answer} (acts : exec c w = some (a, w')) :
    c.canAnswer a := by
  cases c with
  | isError v =>
    rintro yes rfl
    cases acts
    cases yes
  | getGlobalObject =>
    obtain ⟨u, -, same⟩ := Option.map_eq_some_iff.1 acts
    cases same
    exact nofun
  | _ => trivial

abbrev Careful {R : Type} (p : Program R) (Q : R → Prop) : Prop :=
  p.Guards Prim.canAnswer ForeignCall.careful Q

end Values

section Programs
variable {R S : Type} {Q : R → Prop}

theorem careful_bind {p : Program S} {f : S → Program R} (first : Careful p fun _ => True)
    (rest : ∀ s, Careful (f s) Q) : Careful (p.bind f) Q :=
  Prog.guards_bind first fun s _ => rest s

theorem careful_of_calm {p : Program R} (calm : Calm (fun _ => True) p) : Careful p fun _ => True := by
  apply Prog.guards_within calm
  rintro e ⟨call, rfl, noJS⟩
  cases call with
  | getPropertyStr obj name => cases noJS
  | getPropertyUint32 obj index => cases noJS
  | setPropertyStr obj name v => cases noJS
  | setPropertyUint32 obj index v => cases noJS
  | call func this args => cases noJS
  | evalFunction v => cases noJS
  | jsonStringify v => cases noJS
  | _ => exact careful_silent rfl

theorem careful_enterValue {e : EngineCall} (careful : (ForeignCall.engine e).careful) :
    Careful (enterValue e) fun _ => True := ⟨careful, fun _ => trivial⟩
theorem careful_enterInt {e : EngineCall} (careful : (ForeignCall.engine e).careful) :
    Careful (enterInt e) fun _ => True := ⟨careful, fun _ => trivial⟩
theorem careful_enterText {e : EngineCall} (careful : (ForeignCall.engine e).careful) :
    Careful (enterText e) fun _ => True := ⟨careful, fun _ => trivial⟩
theorem careful_enter {e : EngineCall} (careful : (ForeignCall.engine e).careful) :
    Careful (enter e) fun _ => True := ⟨careful, fun _ => trivial⟩

theorem careful_act (c : Prim) : Careful (act c) fun _ => True := fun _ _ => trivial
theorem careful_ask (c : Prim) : Careful (ask c) fun _ => True := fun _ _ => trivial
theorem careful_askValue (c : Prim) : Careful (askValue c) fun _ => True := fun _ _ => trivial
theorem careful_askJava (c : Prim) : Careful (askJava c) fun _ => True := fun _ _ => trivial
theorem careful_askInt (c : Prim) : Careful (askInt c) fun _ => True := fun _ _ => trivial

theorem careful_getGlobalObject : Careful (askValue .getGlobalObject) fun v => v ≠ .exception :=
  fun _ may => may

theorem careful_isError (v : JSValue) : Careful (ask (.isError v)) fun yes => yes = true → v ≠ .exception :=
  fun _ may => may

theorem careful_when {p : Program Unit} {condition : Bool} (careful : Careful p fun _ => True) :
    Careful (p.when condition) fun _ => True := by
  cases condition with
  | true => exact careful
  | false => trivial

theorem careful_freeValue (v : JSValue) : Careful (freeValue v) fun _ => True :=
  careful_of_calm (calm_freeValue v)

theorem careful_toJavaObject (env : JNIEnv) (thisObj value : JSValue) (nonJsCallback : Bool) :
    Careful (toJavaObject env thisObj value nonJsCallback) fun _ => True :=
  careful_of_calm (calm_toJavaObject trivial env thisObj value nonJsCallback)

theorem careful_toJSValue (env : JNIEnv) (o : Option JavaObject) : Careful (toJSValue env o) fun _ => True :=
  careful_of_calm (calm_of_marshals (marshals_toJSValue trivial trivial env o))

theorem careful_getPropertyStr {obj : JSValue} (sound : obj ≠ .exception) (name : List UInt8) :
    Careful (enterValue (.getPropertyStr obj name)) fun _ => True := by
  apply careful_enterValue
  intro handed
  exact absurd (List.mem_singleton.1 handed).symm sound

theorem object_sound (p : Addr) : JSValue.object p ≠ .exception := by
  intro same
  cases same

theorem careful_tryToTriggerOnError {error : JSValue} (sound : error ≠ .exception) :
    Careful (tryToTriggerOnError error) fun _ => True := by
  refine Prog.guards_bind careful_getGlobalObject ?_
  intro global there
  apply careful_bind
  · apply careful_bind (careful_getPropertyStr there _)
    intro onerror
    split
    · exact careful_getPropertyStr there _
    · trivial
  · intro onerror
    split
    · trivial
    · have calls : (ForeignCall.engine (.call onerror global [error])).careful := by
        intro handed
        rcases List.mem_cons.1 handed with same | handed
        · exact absurd same.symm there
        · exact absurd (List.mem_singleton.1 handed).symm sound
      apply careful_bind (careful_enterValue calls)
      intro _
      exact careful_bind (careful_freeValue onerror) fun _ => careful_freeValue global

theorem careful_appendText (v : JSValue) : Careful (appendText v) fun _ => True := by
  apply careful_bind (careful_enterText (careful_silent rfl))
  intro text
  cases text <;> trivial

theorem careful_appendStack (val : JSValue) : Careful (appendStack val) fun _ => True := by
  unfold appendStack
  split
  · trivial
  · exact careful_bind (careful_appendText val) fun _ => trivial

theorem careful_getJSErrorStr (error : JSValue) : Careful (getJSErrorStr error) fun _ => True := by
  refine Prog.guards_bind (careful_isError error) ?_
  intro isError known
  split
  next yes =>
    have sound := known yes
    apply careful_bind (careful_tryToTriggerOnError sound)
    intro _
    apply careful_bind (careful_getPropertyStr sound _)
    intro message
    apply careful_bind (careful_appendText message)
    intro text
    apply careful_bind (careful_freeValue message)
    intro _
    apply careful_bind (careful_getPropertyStr sound _)
    intro val
    apply careful_bind (careful_appendStack val)
    intro stack
    exact careful_bind (careful_freeValue val) fun _ => trivial
  next => exact careful_appendText error

theorem careful_throwJSException (env : JNIEnv) (message : List Piece) :
    Careful (throwJSException env message) fun _ => True := by
  apply careful_bind (careful_ask _)
  intro pending
  split
  · trivial
  · exact careful_act _

theorem careful_getPendingErrorStr : Careful getPendingErrorStr fun _ => True := by
  apply careful_bind (careful_askValue _)
  intro error
  apply careful_bind (careful_getJSErrorStr error)
  intro text
  exact careful_bind (careful_freeValue error) fun _ => trivial

theorem careful_reported (env : JNIEnv) (r : R) :
    Careful ((throwPendingJSException env).bind fun _ => .ret r) fun _ => True :=
  careful_bind (careful_bind careful_getPendingErrorStr fun _ => careful_throwJSException env _) fun _ =>
    trivial

theorem careful_throwIfUnhandledRejections (fuel : Nat) :
    Careful (throwIfUnhandledRejections fuel) fun _ => True := by
  have texts : ∀ error, Careful (rejectionsText fuel error) fun _ => True := by
    induction fuel with
    | zero => exact fun _ => trivial
    | succ fuel ih =>
      intro error
      apply careful_bind (careful_ask _)
      intro empty
      split
      · trivial
      · apply careful_bind (careful_askValue _)
        intro reason
        apply careful_bind (careful_getJSErrorStr reason)
        intro text
        apply careful_bind (careful_freeValue reason)
        intro _
        exact careful_bind (careful_act _) fun _ => ih _
  apply careful_bind (texts [])
  intro error
  split
  · trivial
  · exact careful_bind (careful_throwJSException _ _) fun _ => trivial

theorem careful_pendingJobRounds (env : JNIEnv) (fuel : Nat) :
    Careful (pendingJobRounds env fuel) fun _ => True := by
  have job : Careful executePendingJob fun _ => True := by
    apply careful_bind (careful_ask _)
    intro empty
    split
    · trivial
    · apply careful_bind (careful_act _)
      intro _
      apply careful_bind (careful_enterValue (careful_silent rfl))
      intro res
      exact careful_bind (careful_freeValue res) fun _ => trivial
  induction fuel with
  | zero => trivial
  | succ fuel ih =>
    apply careful_bind job
    intro err
    split
    · exact ih
    · split
      · apply careful_bind careful_getPendingErrorStr
        intro error
        exact careful_bind (careful_throwJSException env error) fun _ => trivial
      · trivial

theorem careful_executePendingJobLoop (env : JNIEnv) (fuel : Nat) :
    Careful (executePendingJobLoop env fuel) fun _ => True := by
  apply careful_bind (careful_ask _)
  intro pending
  split
  · trivial
  · apply careful_bind (careful_pendingJobRounds env fuel)
    intro finished
    split
    · apply careful_bind (careful_act _)
      intro _
      exact careful_bind (careful_throwIfUnhandledRejections fuel) fun _ => trivial
    · trivial

end Programs

section Operations

theorem sound_of_not {v : JSValue} (sound : ¬ v.isException = true) : v ≠ .exception := by
  rintro rfl
  exact sound rfl

theorem careful_evalFunction {v : JSValue} (sound : v ≠ .exception) :
    Careful (enterValue (.evalFunction v)) fun _ => True := by
  apply careful_enterValue
  intro handed
  exact absurd (List.mem_singleton.1 handed).symm sound

theorem careful_scriptResult (env : JNIEnv) (result : JSValue) (fuel : Nat) :
    Careful ((executePendingJobLoop env fuel).bind fun finished =>
      if finished then do
        let global ← askValue .getGlobalObject
        let jsObj ← toJavaObject env global result true
        freeValue global
        return jsObj
      else do
        freeValue result
        return none) fun _ => True := by
  apply careful_bind (careful_executePendingJobLoop env fuel)
  intro finished
  split
  · exact careful_of_calm (calm_globalResult trivial env result)
  · exact careful_bind (careful_freeValue result) fun _ => trivial

theorem careful_getStringUTFChars (env : JNIEnv) (s : JavaString) :
    Careful (getStringUTFChars env s) fun _ => True := fun _ _ => trivial

theorem careful_evaluate (env : JNIEnv) (script fileName : JavaString) (fuel : Nat) :
    Careful (Wrapper.evaluate env script fileName fuel) fun _ => True := by
  apply careful_bind (careful_getStringUTFChars env script)
  intro script
  apply careful_bind (careful_getStringUTFChars env fileName)
  intro fileName
  apply careful_bind (careful_enterValue (careful_silent rfl))
  intro result
  split
  · exact careful_reported env none
  · exact careful_scriptResult env result fuel

theorem careful_evaluateModule (env : JNIEnv) (script fileName : JavaString) (fuel : Nat) :
    Careful (Wrapper.evaluateModule env script fileName fuel) fun _ => True := by
  apply careful_bind (careful_getStringUTFChars env script)
  intro script
  apply careful_bind (careful_getStringUTFChars env fileName)
  intro fileName
  apply careful_bind (careful_enterValue (careful_silent rfl))
  intro result
  split
  · exact careful_reported env none
  · exact careful_scriptResult env result fuel

theorem careful_globalHandle (env : JNIEnv) : Careful (Wrapper.getGlobalObject env) fun _ => True := by
  apply careful_bind (careful_askValue _)
  intro value
  apply careful_bind (careful_askJava _)
  intro result
  exact careful_bind (careful_freeValue value) fun _ => trivial

theorem careful_getProperty (env : JNIEnv) (objValue : Nat) (name : JavaString) :
    Careful (Wrapper.getProperty env objValue name) fun _ => True := by
  apply careful_bind (careful_getStringUTFChars env name)
  intro propsName
  apply careful_bind (careful_getPropertyStr (object_sound objValue) propsName)
  intro propsValue
  split
  · exact careful_reported env none
  · exact careful_toJavaObject env _ propsValue true

theorem careful_callArguments (env : JNIEnv) (args : List (Option JavaObject))
    {arguments freeArguments : List JSValue} (sound : .exception ∉ arguments) :
    Careful (Wrapper.callArguments env args arguments freeArguments) fun converted =>
      ∀ values freed, converted = some (values, freed) → .exception ∉ values := by
  induction args generalizing arguments freeArguments with
  | nil =>
    intro values freed same
    cases same
    exact sound
  | cons arg args ih =>
    apply careful_bind (careful_ask _)
    intro pending
    split
    · intro values freed same
      cases same
      exact sound
    · apply careful_bind (careful_toJSValue env arg)
      intro jsArg
      split
      · intro values freed none
        cases none
      next converted =>
        apply ih
        intro member
        rcases List.mem_append.1 member with early | last
        · exact sound early
        · exact sound_of_not converted (List.mem_singleton.1 last).symm

theorem careful_freeValues (values : List JSValue) : Careful (Wrapper.freeValues values) fun _ => True := by
  induction values with
  | nil => trivial
  | cons v values ih => exact careful_bind (careful_freeValue v) fun _ => ih

theorem careful_call (env : JNIEnv) (func thisObj : Nat) (args : List (Option JavaObject)) (fuel : Nat) :
    Careful (Wrapper.call env func thisObj args fuel) fun _ => True := by
  have empty : JSValue.exception ∉ [] := List.not_mem_nil
  refine Prog.guards_bind (careful_callArguments env args empty) ?_
  intro converted sound
  cases converted with
  | none => trivial
  | some converted =>
    have calls : (ForeignCall.engine (.call (.object func)
        (if thisObj = 0 then .undefined else .object thisObj) converted.1)).careful := by
      intro handed
      rcases List.mem_cons.1 handed with same | member
      · split at same <;> cases same
      · exact absurd member (sound _ _ rfl)
    apply careful_bind (careful_enterValue calls)
    intro ret
    split
    · exact careful_reported env none
    · apply careful_bind (careful_freeValues _)
      intro _
      apply careful_bind (careful_executePendingJobLoop env fuel)
      intro finished
      split
      · exact careful_toJavaObject env _ ret true
      · exact careful_bind (careful_freeValue ret) fun _ => trivial

theorem careful_newStringUTF (env : JNIEnv) (bytes : Option (List UInt8)) :
    Careful (newStringUTF env bytes) fun _ => True := by
  cases bytes with
  | none => trivial
  | some bytes => exact careful_askJava _

theorem careful_jsonStringify (env : JNIEnv) (objValue : Nat) :
    Careful (Wrapper.jsonStringify env objValue) fun _ => True := by
  have asks : (ForeignCall.engine (.jsonStringify (.object objValue))).careful := by
    intro handed
    cases List.mem_singleton.1 handed
  apply careful_bind (careful_enterValue asks)
  intro obj
  split
  · exact careful_reported env none
  · apply careful_bind (careful_enterText (careful_silent rfl))
    intro text
    exact careful_bind (careful_freeValue obj) fun _ => careful_newStringUTF env text

theorem careful_length (env : JNIEnv) (objValue : Nat) : Careful (Wrapper.length env objValue)
    fun _ => True := by
  apply careful_bind (careful_getPropertyStr (object_sound objValue) _)
  intro length
  split
  · exact careful_reported env (-1)
  · exact careful_bind (careful_freeValue length) fun _ => trivial

theorem careful_get (env : JNIEnv) (objValue : Nat) (index : Int32) :
    Careful (Wrapper.get env objValue index) fun _ => True := by
  have asks : (ForeignCall.engine (.getPropertyUint32 (.object objValue) index.toUInt32)).careful := by
    intro handed
    cases List.mem_singleton.1 handed
  apply careful_bind (careful_enterValue asks)
  exact fun child => careful_toJavaObject env _ child true

theorem careful_write {e : EngineCall} {p : Addr} {v : JSValue} (hands : e.hands = [.object p, v])
    (stores : e.stores = some v) : (ForeignCall.engine e).careful := by
  intro handed
  rw [hands] at handed
  rcases List.mem_cons.1 handed with same | member
  · cases same
  · rw [stores, List.mem_singleton.1 member]

theorem careful_set (env : JNIEnv) (thisObj : Nat) (value : Option JavaObject) (index : Int32) :
    Careful (Wrapper.set env thisObj value index) fun _ => True := by
  apply careful_bind (careful_toJSValue env value)
  intro child
  apply careful_bind (careful_when (careful_act _))
  intro _
  exact careful_bind (careful_enterInt (careful_write rfl rfl)) fun _ => trivial

theorem careful_setProperty (env : JNIEnv) (thisObj : Nat) (name : JavaString) (value : Option JavaObject) :
    Careful (Wrapper.setProperty env thisObj name value) fun _ => True := by
  apply careful_bind (careful_getStringUTFChars env name)
  intro propName
  apply careful_bind (careful_toJSValue env value)
  intro propValue
  apply careful_bind
  · unfold Wrapper.prepareProperty
    split
    · exact careful_act _
    · exact careful_act _
    · exact careful_bind (careful_enterInt (careful_silent rfl)) fun _ => trivial
    · trivial
  · intro _
    exact careful_bind (careful_enterInt (careful_write rfl rfl)) fun _ => trivial

theorem careful_parseJSON (env : JNIEnv) (json : JavaString) :
    Careful (Wrapper.parseJSON env json) fun _ => True := by
  apply careful_bind (careful_getStringUTFChars env json)
  intro json
  apply careful_bind (careful_enterValue (careful_silent rfl))
  intro jsonObj
  split
  · exact careful_reported env none
  · exact careful_toJavaObject env _ jsonObj true

theorem careful_compile (env : JNIEnv) (source fileName : JavaString) (isModule : Bool) :
    Careful (Wrapper.compile env source fileName isModule) fun _ => True := by
  apply careful_bind (careful_getStringUTFChars env source)
  intro sourceCode
  apply careful_bind (careful_getStringUTFChars env fileName)
  intro fileName
  apply careful_bind (careful_enterValue (careful_silent rfl))
  intro compiled
  split
  · exact careful_reported env none
  · apply careful_bind (careful_enterText (careful_silent rfl))
    intro buffer
    apply careful_bind
    · apply careful_when
      exact careful_bind careful_getPendingErrorStr fun _ => careful_throwJSException env _
    intro _
    exact careful_bind (careful_freeValue compiled) fun _ => trivial

theorem careful_execute (env : JNIEnv) (byteCode : List UInt8) (fuel : Nat) :
    Careful (Wrapper.execute env byteCode fuel) fun _ => True := by
  apply careful_bind (careful_enterValue (careful_silent rfl))
  intro obj
  split
  · exact careful_reported env none
  next sound =>
    apply careful_bind (careful_enterInt (careful_silent rfl))
    intro status
    split
    · trivial
    · apply careful_bind (careful_evalFunction (sound_of_not sound))
      intro val
      apply careful_bind (careful_executePendingJobLoop env fuel)
      intro finished
      split
      · split
        · exact careful_reported env none
        · exact careful_toJavaObject env obj val true
      · exact careful_bind (careful_freeValue val) fun _ => trivial

theorem careful_freeValueNative (value : Nat) : Careful (Wrapper.freeValue value) fun _ => True := by
  apply careful_bind (careful_ask _)
  intro known
  split
  · exact careful_freeValue _
  · trivial

theorem careful_jsFnCallback (func thisObj : JSValue) (argv : List JSValue) :
    Careful (jsFnCallback func thisObj argv) fun _ => True := by
  have arguments : Careful (Wrapper.callbackArguments thisObj argv) fun _ => True := by
    induction argv with
    | nil => trivial
    | cons v argv ih =>
      apply careful_bind (careful_toJavaObject .saved thisObj v false)
      intro arg
      exact careful_bind ih fun _ => trivial
  have back : ∀ id args, Careful (Wrapper.callFunctionBack id args) fun _ => True := by
    intro id args
    apply careful_bind (careful_askJava _)
    intro found
    split
    next f =>
      have calls : Careful (Prog.enter (.java f args) fun a => .ret a.toJava) fun _ => True :=
        ⟨trivial, fun _ => trivial⟩
      apply careful_bind calls
      intro ret
      split
      · exact careful_bind (careful_act _) fun _ => trivial
      · trivial
    · exact careful_bind (careful_act _) fun _ => trivial
  apply careful_bind (careful_askInt _)
  intro callbackId
  apply careful_bind (careful_act _)
  intro _
  apply careful_bind arguments
  intro javaArgs
  apply careful_bind (back callbackId javaArgs)
  intro result
  apply careful_bind (careful_toJSValue .saved result)
  intro jsValue
  exact careful_bind (careful_when (careful_act _)) fun _ => trivial

theorem careful_jsStdDumpError : Careful Wrapper.jsStdDumpError fun _ => True := by
  have dumpObj : ∀ v, Careful (Wrapper.jsDumpObj v) fun _ => True :=
    fun v => careful_bind (careful_enterText (careful_silent rfl)) fun _ => trivial
  apply careful_bind (careful_askValue _)
  intro exceptionVal
  refine Prog.guards_bind (careful_isError exceptionVal) ?_
  intro isError known
  apply careful_bind (dumpObj exceptionVal)
  intro _
  apply careful_bind
  · cases isError with
    | false => trivial
    | true =>
      apply careful_bind (careful_getPropertyStr (known rfl) _)
      intro val
      exact careful_bind (careful_when (dumpObj val)) fun _ => careful_freeValue val
  · exact fun _ => careful_freeValue exceptionVal

theorem careful_create (t : ThreadId) : Careful (Wrapper.create t) fun _ => True := by
  have module : ∀ buf fileName, Careful (Wrapper.evalBufModule buf fileName) fun _ => True := by
    intro buf fileName
    apply careful_bind (careful_enterValue (careful_silent rfl))
    intro compiled
    apply careful_bind
    · unfold Wrapper.evalCompiled
      split
      · trivial
      next sound =>
        apply careful_bind (careful_enter (careful_silent rfl))
        intro _
        exact careful_evalFunction (sound_of_not sound)
    · intro val
      exact careful_bind (careful_when careful_jsStdDumpError) fun _ => careful_freeValue val
  apply careful_bind (careful_act _)
  intro _
  apply careful_bind (careful_act _)
  intro _
  apply careful_bind (careful_enter (careful_silent rfl))
  intro _
  apply careful_bind (module _ _)
  intro _
  exact careful_bind (careful_act _) fun _ => careful_act _

theorem careful_nonNull {env : JNIEnv} {argument : Option JavaString} {message : String}
    {p : JavaString → Program Answer} (careful : ∀ s, Careful (p s) fun _ => True) :
    Careful (nonNull env argument message p) fun _ => True := by
  cases argument with
  | none => exact careful_bind (careful_act _) fun _ => trivial
  | some s => exact careful s

theorem careful_result {p : Program R} {f : R → Answer} (careful : Careful p fun _ => True) :
    Careful (p.bind fun r => .ret (f r)) fun _ => True := careful_bind careful fun _ => trivial

theorem careful_program (op : NativeOp) (t : ThreadId) : Careful (op.program t) fun _ => True := by
  cases op with
  | createContext => exact careful_result (careful_create t)
  | runGC => exact careful_result ⟨careful_silent rfl, fun _ => trivial⟩
  | evaluate script fileName fuel =>
    exact careful_nonNull fun script => careful_nonNull fun fileName =>
      careful_result (careful_evaluate _ script fileName fuel)
  | evaluateModule script fileName fuel =>
    exact careful_nonNull fun script => careful_nonNull fun fileName =>
      careful_result (careful_evaluateModule _ script fileName fuel)
  | compile source fileName isModule =>
    exact careful_nonNull fun source => careful_nonNull fun fileName =>
      careful_result (careful_compile _ source fileName isModule)
  | execute bytecode fuel =>
    cases bytecode with
    | none => trivial
    | some bytecode => exact careful_result (careful_execute _ bytecode fuel)
  | getGlobalObject => exact careful_result (careful_globalHandle _)
  | getProperty objValue name =>
    exact careful_nonNull fun name => careful_result (careful_getProperty _ objValue name)
  | setProperty objValue name value =>
    exact careful_nonNull fun name => careful_result (careful_setProperty _ objValue name value)
  | length objValue => exact careful_result (careful_length _ objValue)
  | get objValue index => exact careful_result (careful_get _ objValue index)
  | set objValue value index => exact careful_result (careful_set _ objValue value index)
  | freeValue objValue => exact careful_result (careful_freeValueNative objValue)
  | call func thisObj args fuel => exact careful_result (careful_call _ func thisObj args fuel)
  | stringify objValue => exact careful_result (careful_jsonStringify _ objValue)
  | parseJSON json => exact careful_nonNull fun json => careful_result (careful_parseJSON _ json)

theorem careful_start {o : BridgeOp} {ctx : Option ForeignCall} {w w' : World} {p : Program Answer}
    (starts : start o ctx w = some (w', p)) : Careful p fun _ => True := by
  cases o with
  | native t =>
    simp only [start, startNative] at starts
    split at starts
    · split at starts
      · cases starts
      · cases of_ite_some starts
        exact careful_program _ t
    · cases starts
  | jsFnCallback func thisObj argv =>
    simp only [start, startCallback] at starts
    split at starts
    · cases of_ite_some starts
      exact careful_result (careful_jsFnCallback _ thisObj argv)
    · cases starts

end Operations
end QuickJSBridge
