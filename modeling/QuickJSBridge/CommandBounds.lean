import QuickJSBridge.HandleLiveness

/- The kinds of primitives each program can issue. Most of the code only issues plain ones;
   the constructor installs the opaque slot, reports take the JS exception and throw a Java
   one, the job loop loop jobs, and callbacks are registered where they cross the border. -/
namespace QuickJSBridge
open HostProgram ReentrantMachine

inductive Kind where
  | plain
  | report
  | loop
  | slot
  | store
  | put
  | install

def Prim.kind : Prim → Kind
  | .getException | .throw _ (.quickJS _) => .report
  | .jobListEmpty | .takeJob => .loop
  | .getRuntimeOpaque => .slot
  | .setFuncCallback _ _ _ => .store
  | .putCallFunction _ => .put
  | .setRuntimeOpaque _ | .contextCreated | .saveEnv _ => .install
  | _ => .plain

def supported : Option JavaObject → Bool
  | some (.other _) => false
  | _ => true

def ForeignCall.isEngine : ForeignCall → Bool
  | .engine _ => true
  | .java _ _ => false

abbrev JobGuarded (kinds : Kind → Prop) (e : ForeignCall) : Prop :=
  e = .engine .jobFunc → kinds .loop

abbrev Issues {R : Type} (kinds : Kind → Prop) (p : Program R) : Prop :=
  p.Within (fun c => kinds c.kind) fun e => e.isEngine = true ∧ JobGuarded kinds e

abbrev IsCalm (e : ForeignCall) : Prop := ∃ call, e = .engine call ∧ call.runsJS = false

abbrev Calm {R : Type} (kinds : Kind → Prop) (p : Program R) : Prop :=
  p.Within (fun c => kinds c.kind) IsCalm

def EngineCall.marshals : EngineCall → Bool
  | .newString _ | .newBigInt64 _ | .newCallbackFunction | .isArray _ | .freeValue _ => true
  | .toCString v => !v.isObject
  | _ => false

abbrev IsMarshalling (e : ForeignCall) : Prop := ∃ call, e = .engine call ∧ call.marshals = true

abbrev Marshals {R : Type} (kinds : Kind → Prop) (p : Program R) : Prop :=
  p.Within (fun c => kinds c.kind) IsMarshalling

theorem calm_marshalling {e : ForeignCall} (marshals : IsMarshalling e) : IsCalm e := by
  obtain ⟨call, rfl, may⟩ := marshals
  refine ⟨call, rfl, ?_⟩
  cases call with
  | toCString v => exact Bool.not_eq_true' _ |>.mp may
  | _ => first | rfl | cases may

def EngineCall.isJob : EngineCall → Bool
  | .jobFunc => true
  | _ => false

def Prim.asks : Prim → Bool
  | .getGlobalObject | .isError _ => true
  | _ => false

def Prim.makesObjects : Prim → Bool
  | .newStringUTF _ _ | .valueOf _ _ | .newObject _ _ _ _ _ => true
  | .isFunction _ | .valuesCount _ | .valuesInsert _ => true
  | _ => false

def Prim.makesValues : Prim → Bool
  | .getStringUTFChars _ _ | .unbox _ _ | .hashCode _ _ | .setFuncCallback _ _ _ => true
  | _ => false

abbrev Asks {R : Type} (p : Program R) : Prop :=
  p.Within (fun c => c.asks = true) fun e => e.isEngine = true ∧ e ≠ .engine .jobFunc

section Bounds
variable {kinds : Kind → Prop} {R S : Type}

theorem issues_bind {p : Program R} {f : R → Program S} (first : Issues kinds p)
    (rest : ∀ r, Issues kinds (f r)) : Issues kinds (p.bind f) :=
  Prog.within_bind first rest

theorem issues_act {c : Prim} (may : kinds c.kind) : Issues kinds (act c) := ⟨may, fun _ => trivial⟩
theorem issues_ask {c : Prim} (may : kinds c.kind) : Issues kinds (ask c) := ⟨may, fun _ => trivial⟩
theorem issues_askValue {c : Prim} (may : kinds c.kind) : Issues kinds (askValue c) :=
  ⟨may, fun _ => trivial⟩
theorem issues_askJava {c : Prim} (may : kinds c.kind) : Issues kinds (askJava c) :=
  ⟨may, fun _ => trivial⟩
theorem issues_askInt {c : Prim} (may : kinds c.kind) : Issues kinds (askInt c) :=
  ⟨may, fun _ => trivial⟩
theorem issues_engine {e : EngineCall} (other : e.isJob = false) :
    (ForeignCall.engine e).isEngine = true ∧ JobGuarded kinds (.engine e) := by
  refine ⟨rfl, fun same => ?_⟩
  cases same
  cases other

theorem issues_enter {e : EngineCall} (other : e.isJob = false) : Issues kinds (enter e) :=
  ⟨issues_engine other, fun _ => trivial⟩
theorem issues_enterValue {e : EngineCall} (other : e.isJob = false) :
    Issues kinds (enterValue e) :=
  ⟨issues_engine other, fun _ => trivial⟩
theorem issues_enterInt {e : EngineCall} (other : e.isJob = false) : Issues kinds (enterInt e) :=
  ⟨issues_engine other, fun _ => trivial⟩
theorem issues_enterText {e : EngineCall} (other : e.isJob = false) :
    Issues kinds (enterText e) :=
  ⟨issues_engine other, fun _ => trivial⟩

theorem issues_when {p : Program Unit} {condition : Bool} (may : Issues kinds p) :
    Issues kinds (p.when condition) := by
  cases condition with
  | true => exact may
  | false => trivial

theorem issues_of_calm {p : Program R} (calm : Calm kinds p) : Issues kinds p := by
  apply Prog.within_mono calm (fun _ ok => ok)
  rintro e ⟨call, rfl, noJS⟩
  apply issues_engine
  cases call with
  | jobFunc => cases noJS
  | _ => rfl

theorem calm_of_marshals {p : Program R} (marshals : Marshals kinds p) : Calm kinds p :=
  Prog.within_mono marshals (fun _ ok => ok) fun _ => calm_marshalling

theorem marshals_freeValue (v : JSValue) : Marshals kinds (freeValue v) := by
  unfold freeValue
  split
  · trivial
  · exact ⟨⟨_, rfl, rfl⟩, fun _ => trivial⟩

theorem calm_freeValue (v : JSValue) : Calm kinds (freeValue v) := calm_of_marshals (marshals_freeValue v)

theorem issues_freeValue (v : JSValue) : Issues kinds (freeValue v) :=
  issues_of_calm (calm_freeValue v)

variable (plain : kinds .plain) (report : kinds .report)
include plain

theorem issues_getStringUTFChars (env : JNIEnv) (s : JavaString) :
    Issues kinds (getStringUTFChars env s) :=
  ⟨plain, fun _ => trivial⟩

theorem issues_newStringUTF (env : JNIEnv) (bytes : Option (List UInt8)) :
    Issues kinds (newStringUTF env bytes) := by
  cases bytes with
  | none => trivial
  | some bytes => exact issues_askJava plain

section Reports

omit plain in
theorem asks_enterValue {e : EngineCall} (other : e.isJob = false) : Asks (enterValue e) := by
  refine ⟨⟨rfl, ?_⟩, fun _ => trivial⟩
  rintro ⟨⟩
  cases other

omit plain in
theorem asks_freeValue (v : JSValue) : Asks (freeValue v) := by
  unfold freeValue
  split
  · trivial
  · exact ⟨⟨rfl, nofun⟩, fun _ => trivial⟩

omit plain in
theorem asks_tryToTriggerOnError (error : JSValue) : Asks (tryToTriggerOnError error) := by
  refine Prog.within_bind ⟨rfl, fun _ => trivial⟩ fun global => ?_
  apply Prog.within_bind
  · apply Prog.within_bind (asks_enterValue rfl)
    intro onerror
    split
    · exact asks_enterValue rfl
    · trivial
  · intro onerror
    split
    · trivial
    · apply Prog.within_bind (asks_enterValue rfl)
      intro _
      exact Prog.within_bind (asks_freeValue _) fun _ => asks_freeValue _

omit plain in
theorem asks_appendText (v : JSValue) : Asks (appendText v) := by
  refine Prog.within_bind ⟨⟨rfl, nofun⟩, fun _ => trivial⟩ fun text => ?_
  cases text <;> trivial

omit plain in
theorem asks_appendStack (val : JSValue) : Asks (appendStack val) := by
  unfold appendStack
  split
  · trivial
  · exact Prog.within_bind (asks_appendText val) fun _ => trivial

omit plain in
theorem asks_getJSErrorStr (error : JSValue) : Asks (getJSErrorStr error) := by
  refine Prog.within_bind ⟨rfl, fun _ => trivial⟩ fun isError => ?_
  split
  · apply Prog.within_bind (asks_tryToTriggerOnError error)
    intro _
    apply Prog.within_bind (asks_enterValue rfl)
    intro message
    apply Prog.within_bind (asks_appendText message)
    intro text
    apply Prog.within_bind (asks_freeValue message)
    intro _
    apply Prog.within_bind (asks_enterValue rfl)
    intro val
    apply Prog.within_bind (asks_appendStack val)
    intro stack
    exact Prog.within_bind (asks_freeValue val) fun _ => trivial
  · exact asks_appendText error

theorem issues_of_asks {p : Program R} (asks : Asks p) : Issues kinds p := by
  apply Prog.within_mono asks
  · intro c asks
    cases c with
    | getGlobalObject => exact plain
    | isError v => exact plain
    | _ => cases asks
  · rintro e ⟨engine, other⟩
    exact ⟨engine, fun same => (other same).elim⟩

theorem issues_getJSErrorStr (error : JSValue) : Issues kinds (getJSErrorStr error) :=
  issues_of_asks plain (asks_getJSErrorStr error)

include report in
theorem issues_getPendingErrorStr : Issues kinds getPendingErrorStr := by
  apply issues_bind (issues_askValue report)
  intro error
  apply issues_bind (issues_getJSErrorStr plain error)
  intro text
  exact issues_bind (issues_freeValue error) fun _ => trivial

include report in
theorem issues_throwJSException (env : JNIEnv) (message : List Piece) :
    Issues kinds (throwJSException env message) := by
  apply issues_bind (issues_ask plain)
  intro pending
  split
  · trivial
  · exact issues_act report

include report in
theorem issues_throwPendingJSException (env : JNIEnv) :
    Issues kinds (throwPendingJSException env) :=
  issues_bind (issues_getPendingErrorStr plain report) fun _ => issues_throwJSException plain report env _

include report in
theorem issues_reported (env : JNIEnv) (r : R) :
    Issues kinds ((throwPendingJSException env).bind fun _ => .ret r) :=
  issues_bind (issues_throwPendingJSException plain report env) fun _ => trivial

include report in
theorem issues_throwIfUnhandledRejections (fuel : Nat) :
    Issues kinds (throwIfUnhandledRejections fuel) := by
  have texts : ∀ error, Issues kinds (rejectionsText fuel error) := by
    induction fuel with
    | zero => exact fun _ => trivial
    | succ fuel ih =>
      intro error
      apply issues_bind (issues_ask plain)
      intro empty
      split
      · trivial
      · apply issues_bind (issues_askValue plain)
        intro reason
        apply issues_bind (issues_getJSErrorStr plain reason)
        intro text
        apply issues_bind (issues_freeValue reason)
        intro _
        exact issues_bind (issues_act plain) fun _ => ih _
  apply issues_bind (texts [])
  intro error
  split
  · trivial
  · exact issues_bind (issues_throwJSException plain report _ _) fun _ => trivial

end Reports

section Loops
variable (loop : kinds .loop) (slot : kinds .slot)
include loop slot

omit plain slot in
theorem issues_executePendingJob : Issues kinds executePendingJob := by
  apply issues_bind (issues_ask loop)
  intro empty
  split
  · trivial
  · apply issues_bind (issues_act loop)
    intro _
    have runs : Issues kinds (enterValue .jobFunc) := ⟨⟨rfl, fun _ => loop⟩, fun _ => trivial⟩
    apply issues_bind runs
    intro res
    exact issues_bind (issues_freeValue res) fun _ => trivial

omit slot in
include report in
theorem issues_pendingJobRounds (env : JNIEnv) (fuel : Nat) :
    Issues kinds (pendingJobRounds env fuel) := by
  induction fuel with
  | zero => trivial
  | succ fuel ih =>
    apply issues_bind (issues_executePendingJob loop)
    intro err
    split
    · exact ih
    · split
      · apply issues_bind (issues_getPendingErrorStr plain report)
        intro error
        exact issues_bind (issues_throwJSException plain report env error) fun _ => trivial
      · trivial

include report in
theorem issues_executePendingJobLoop (env : JNIEnv) (fuel : Nat) :
    Issues kinds (executePendingJobLoop env fuel) := by
  apply issues_bind (issues_ask plain)
  intro pending
  split
  · trivial
  · apply issues_bind (issues_pendingJobRounds plain report loop env fuel)
    intro finished
    split
    · apply issues_bind (issues_act slot)
      intro _
      exact issues_bind (issues_throwIfUnhandledRejections plain report fuel) fun _ => trivial
    · trivial

end Loops

section Marshalling

omit plain in
theorem makes_toJavaObject (env : JNIEnv) (thisObj value : JSValue) (nonJsCallback : Bool) :
    (toJavaObject env thisObj value nonJsCallback).Within (fun c => c.makesObjects = true) IsMarshalling := by
  have askJava : ∀ {c : Prim}, c.makesObjects = true →
      (askJava c).Within (fun c => c.makesObjects = true) IsMarshalling :=
    fun may => ⟨may, fun _ => trivial⟩
  have free : (freeValue value).Within (fun c => c.makesObjects = true) IsMarshalling := by
    unfold freeValue
    split
    · trivial
    · exact ⟨⟨_, rfl, rfl⟩, fun _ => trivial⟩
  cases value with
  | string p s =>
    refine Prog.within_bind ⟨⟨_, rfl, rfl⟩, fun _ => trivial⟩ fun text => ?_
    apply Prog.within_bind
    · cases text with
      | none => trivial
      | some bytes => exact askJava rfl
    · intro result
      apply Prog.within_bind
      · cases nonJsCallback with
        | true => exact free
        | false => trivial
      · exact fun _ => trivial
  | object p =>
    have handle : (newHandle env thisObj (.object p) (!nonJsCallback)).Within
        (fun c => c.makesObjects = true) IsMarshalling := by
      refine Prog.within_bind ⟨rfl, fun _ => trivial⟩ fun isFunction => ?_
      split
      · exact askJava rfl
      · refine Prog.within_bind ⟨⟨_, rfl, rfl⟩, fun _ => trivial⟩ fun isArray => ?_
        split <;> exact askJava rfl
    have keep : (keepValue (.object p)).Within (fun c => c.makesObjects = true) IsMarshalling := by
      refine Prog.within_bind ⟨rfl, fun _ => trivial⟩ fun known => ?_
      split
      · exact free
      · exact ⟨rfl, fun _ => trivial⟩
    apply Prog.within_bind handle
    intro result
    apply Prog.within_bind
    · cases nonJsCallback with
      | true => exact keep
      | false => trivial
    · exact fun _ => trivial
  | float64 d =>
    simp only [toJavaObject]
    split <;> exact askJava rfl
  | bool b => exact askJava rfl
  | int n => exact askJava rfl
  | bigInt p n => exact askJava rfl
  | _ => trivial

theorem marshals_toJavaObject (env : JNIEnv) (thisObj value : JSValue) (nonJsCallback : Bool) :
    Marshals kinds (toJavaObject env thisObj value nonJsCallback) := by
  apply Prog.within_mono (makes_toJavaObject env thisObj value nonJsCallback) _ fun _ ok => ok
  intro c makes
  cases c with
  | newStringUTF env bytes => exact plain
  | valueOf env o => exact plain
  | newObject env cls thisObj pointer borrowed => exact plain
  | isFunction v => exact plain
  | valuesCount pointer => exact plain
  | valuesInsert pointer => exact plain
  | _ => cases makes

theorem calm_toJavaObject (env : JNIEnv) (thisObj value : JSValue) (nonJsCallback : Bool) :
    Calm kinds (toJavaObject env thisObj value nonJsCallback) :=
  calm_of_marshals (marshals_toJavaObject plain env thisObj value nonJsCallback)

theorem issues_toJavaObject (env : JNIEnv) (thisObj value : JSValue) (nonJsCallback : Bool) :
    Issues kinds (toJavaObject env thisObj value nonJsCallback) :=
  issues_of_calm (calm_toJavaObject plain env thisObj value nonJsCallback)

omit plain in
theorem makes_toJSValue (env : JNIEnv) (o : Option JavaObject) : (toJSValue env o).Within
    (fun c => c.makesValues = true ∨ supported o = false ∧ ∃ name, c = .throw env (unsupportedType name))
    IsMarshalling := by
  have act : ∀ {c : Prim}, c.makesValues = true → (act c).Within (fun c => c.makesValues = true ∨
      supported o = false ∧ ∃ name, c = .throw env (unsupportedType name)) IsMarshalling :=
    fun may => ⟨Or.inl may, fun _ => trivial⟩
  have enterValue : ∀ {e : EngineCall}, e.marshals = true → (enterValue e).Within (fun c =>
      c.makesValues = true ∨ supported o = false ∧ ∃ name, c = .throw env (unsupportedType name))
        IsMarshalling :=
    fun may => ⟨⟨_, rfl, may⟩, fun _ => trivial⟩
  cases o with
  | none => trivial
  | some o =>
    cases o with
    | string s => exact ⟨Or.inl rfl, fun _ => enterValue rfl⟩
    | double d => exact Prog.within_bind (act rfl) fun _ => trivial
    | integer n => exact Prog.within_bind (act rfl) fun _ => trivial
    | boolean b => exact Prog.within_bind (act rfl) fun _ => trivial
    | handle id cls pointer objPointer => exact Prog.within_bind (act rfl) fun _ => trivial
    | other className => exact ⟨Or.inr ⟨rfl, className, rfl⟩, fun _ => trivial⟩
    | long n =>
      refine Prog.within_bind (act rfl) fun _ => ?_
      split
      · exact enterValue rfl
      · trivial
    | callFunction f =>
      refine Prog.within_bind (enterValue rfl) fun result => ?_
      refine Prog.within_bind ⟨Or.inl rfl, fun _ => trivial⟩ fun callbackId => ?_
      exact Prog.within_bind (act rfl) fun _ => trivial

theorem marshals_toJSValue (store : kinds .store) (env : JNIEnv)
    (o : Option JavaObject) : Marshals kinds (toJSValue env o) := by
  apply Prog.within_mono (makes_toJSValue env o) _ fun _ ok => ok
  rintro c (makes | ⟨-, name, rfl⟩)
  · cases c with
    | getStringUTFChars env s => exact plain
    | unbox env o => exact plain
    | hashCode env f => exact plain
    | setFuncCallback v id source => exact store
    | _ => cases makes
  · exact plain

theorem issues_toJSValue (store : kinds .store) (env : JNIEnv)
    (o : Option JavaObject) : Issues kinds (toJSValue env o) :=
  issues_of_calm (calm_of_marshals (marshals_toJSValue plain store env o))

end Marshalling

section Operations
variable (loop : kinds .loop) (slot : kinds .slot)
variable (store : kinds .store)
variable (put : kinds .put)

theorem marshals_globalResult (env : JNIEnv) (result : JSValue) :
    Marshals kinds ((askValue .getGlobalObject).bind fun global =>
      (toJavaObject env global result true).bind fun jsObj =>
      (freeValue global).bind fun _ => .ret jsObj) := by
  refine Prog.within_bind ⟨plain, fun _ => trivial⟩ fun global => ?_
  apply Prog.within_bind (marshals_toJavaObject plain env global result true)
  intro jsObj
  exact Prog.within_bind (marshals_freeValue global) fun _ => trivial

theorem calm_globalResult (env : JNIEnv) (result : JSValue) :
    Calm kinds ((askValue .getGlobalObject).bind fun global =>
      (toJavaObject env global result true).bind fun jsObj =>
      (freeValue global).bind fun _ => .ret jsObj) :=
  calm_of_marshals (marshals_globalResult plain env result)

include report loop slot in
theorem issues_evaluate (env : JNIEnv) (script fileName : JavaString) (fuel : Nat) :
    Issues kinds (Wrapper.evaluate env script fileName fuel) := by
  apply issues_bind (issues_getStringUTFChars plain env script)
  intro script
  apply issues_bind (issues_getStringUTFChars plain env fileName)
  intro fileName
  apply issues_bind (issues_enterValue rfl)
  intro result
  split
  · exact issues_reported plain report env none
  · apply issues_bind (issues_executePendingJobLoop plain report loop slot env fuel)
    intro finished
    split
    · exact issues_of_calm (calm_globalResult plain env result)
    · exact issues_bind (issues_freeValue result) fun _ => trivial

include report loop slot in
theorem issues_evaluateModule (env : JNIEnv) (script fileName : JavaString) (fuel : Nat) :
    Issues kinds (Wrapper.evaluateModule env script fileName fuel) := by
  apply issues_bind (issues_getStringUTFChars plain env script)
  intro script
  apply issues_bind (issues_getStringUTFChars plain env fileName)
  intro fileName
  apply issues_bind (issues_enterValue rfl)
  intro result
  split
  · exact issues_reported plain report env none
  · apply issues_bind (issues_executePendingJobLoop plain report loop slot env fuel)
    intro finished
    split
    · exact issues_of_calm (calm_globalResult plain env result)
    · exact issues_bind (issues_freeValue result) fun _ => trivial

theorem issues_getGlobalObject (env : JNIEnv) : Issues kinds (Wrapper.getGlobalObject env) := by
  apply issues_bind (issues_askValue plain)
  intro value
  apply issues_bind (issues_askJava plain)
  intro result
  exact issues_bind (issues_freeValue value) fun _ => trivial

include report in
theorem issues_getProperty (env : JNIEnv) (objValue : Nat) (name : JavaString) :
    Issues kinds (Wrapper.getProperty env objValue name) := by
  apply issues_bind (issues_getStringUTFChars plain env name)
  intro propsName
  apply issues_bind (issues_enterValue rfl)
  intro propsValue
  split
  · exact issues_reported plain report env none
  · exact issues_toJavaObject plain env _ propsValue true

omit plain in
theorem issues_freeValues (values : List JSValue) : Issues kinds (Wrapper.freeValues values) := by
  induction values with
  | nil => trivial
  | cons v values ih => exact issues_bind (issues_freeValue v) fun _ => ih

include store in
theorem marshals_callArguments (env : JNIEnv) (args : List (Option JavaObject))
    (arguments freeArguments : List JSValue) :
    Marshals kinds (Wrapper.callArguments env args arguments freeArguments) := by
  induction args generalizing arguments freeArguments with
  | nil => trivial
  | cons arg args ih =>
    refine Prog.within_bind ⟨plain, fun _ => trivial⟩ fun pending => ?_
    split
    · trivial
    · refine Prog.within_bind (marshals_toJSValue plain store env arg) fun jsArg => ?_
      split
      · trivial
      · exact ih _ _

include store in
theorem issues_callArguments (env : JNIEnv) (args : List (Option JavaObject))
    (arguments freeArguments : List JSValue) :
    Issues kinds (Wrapper.callArguments env args arguments freeArguments) :=
  issues_of_calm (calm_of_marshals (marshals_callArguments plain store env args arguments freeArguments))

include report loop slot in
theorem issues_callWith (env : JNIEnv) (func : Nat) (jsObj : JSValue)
    (arguments freeArguments : List JSValue) (fuel : Nat) :
    Issues kinds (Wrapper.callWith env func jsObj arguments freeArguments fuel) := by
  apply issues_bind (issues_enterValue rfl)
  intro ret
  split
  · exact issues_reported plain report env none
  · apply issues_bind (issues_freeValues _)
    intro _
    apply issues_bind (issues_executePendingJobLoop plain report loop slot env fuel)
    intro finished
    split
    · exact issues_toJavaObject plain env _ ret true
    · exact issues_bind (issues_freeValue ret) fun _ => trivial

include report loop slot store in
theorem issues_call (env : JNIEnv) (func thisObj : Nat) (args : List (Option JavaObject))
    (fuel : Nat) : Issues kinds (Wrapper.call env func thisObj args fuel) := by
  apply issues_bind (issues_callArguments plain store env args [] [])
  intro converted
  cases converted with
  | none => trivial
  | some converted => exact issues_callWith plain report loop slot env func _ _ _ fuel

include report in
theorem issues_jsonStringify (env : JNIEnv) (objValue : Nat) :
    Issues kinds (Wrapper.jsonStringify env objValue) := by
  apply issues_bind (issues_enterValue rfl)
  intro obj
  split
  · exact issues_reported plain report env none
  · apply issues_bind (issues_enterText rfl)
    intro text
    exact issues_bind (issues_freeValue obj) fun _ => issues_newStringUTF plain env text

include report in
theorem issues_length (env : JNIEnv) (objValue : Nat) :
    Issues kinds (Wrapper.length env objValue) := by
  apply issues_bind (issues_enterValue rfl)
  intro length
  split
  · exact issues_reported plain report env (-1)
  · exact issues_bind (issues_freeValue length) fun _ => trivial

theorem issues_get (env : JNIEnv) (objValue : Nat) (index : Int32) :
    Issues kinds (Wrapper.get env objValue index) :=
  issues_bind (issues_enterValue rfl) fun child => issues_toJavaObject plain env _ child true

include store in
theorem issues_set (env : JNIEnv) (thisObj : Nat) (value : Option JavaObject) (index : Int32) :
    Issues kinds (Wrapper.set env thisObj value index) := by
  apply issues_bind (issues_toJSValue plain store env value)
  intro child
  apply issues_bind (issues_when (issues_act plain))
  intro _
  exact issues_bind (issues_enterInt rfl) fun _ => trivial

theorem issues_prepareProperty (propName : List UInt8) (value : Option JavaObject) (propValue : JSValue) :
    Issues kinds (Wrapper.prepareProperty propName value propValue) := by
  unfold Wrapper.prepareProperty
  split
  · exact issues_act plain
  · exact issues_act plain
  · exact issues_bind (issues_enterInt rfl) fun _ => trivial
  · trivial

include store in
theorem issues_setProperty (env : JNIEnv) (thisObj : Nat) (name : JavaString)
    (value : Option JavaObject) : Issues kinds (Wrapper.setProperty env thisObj name value) := by
  apply issues_bind (issues_getStringUTFChars plain env name)
  intro propName
  apply issues_bind (issues_toJSValue plain store env value)
  intro propValue
  apply issues_bind (issues_prepareProperty plain propName value propValue)
  intro _
  exact issues_bind (issues_enterInt rfl) fun _ => trivial

theorem issues_freeValueNative (value : Nat) : Issues kinds (Wrapper.freeValue value) := by
  apply issues_bind (issues_ask plain)
  intro known
  split
  · exact issues_freeValue _
  · trivial

include report in
theorem issues_parseJSON (env : JNIEnv) (json : JavaString) :
    Issues kinds (Wrapper.parseJSON env json) := by
  apply issues_bind (issues_getStringUTFChars plain env json)
  intro json
  apply issues_bind (issues_enterValue rfl)
  intro jsonObj
  split
  · exact issues_reported plain report env none
  · exact issues_toJavaObject plain env _ jsonObj true

include report in
theorem issues_compile (env : JNIEnv) (source fileName : JavaString) (isModule : Bool) :
    Issues kinds (Wrapper.compile env source fileName isModule) := by
  apply issues_bind (issues_getStringUTFChars plain env source)
  intro sourceCode
  apply issues_bind (issues_getStringUTFChars plain env fileName)
  intro fileName
  apply issues_bind (issues_enterValue rfl)
  intro compiled
  split
  · exact issues_reported plain report env none
  · apply issues_bind (issues_enterText rfl)
    intro buffer
    apply issues_bind (issues_when (issues_throwPendingJSException plain report env))
    intro _
    exact issues_bind (issues_freeValue compiled) fun _ => trivial

include report loop slot in
theorem issues_execute (env : JNIEnv) (byteCode : List UInt8) (fuel : Nat) :
    Issues kinds (Wrapper.execute env byteCode fuel) := by
  apply issues_bind (issues_enterValue rfl)
  intro obj
  split
  · exact issues_reported plain report env none
  · apply issues_bind (issues_enterInt rfl)
    intro status
    split
    · trivial
    · apply issues_bind (issues_enterValue rfl)
      intro val
      apply issues_bind (issues_executePendingJobLoop plain report loop slot env fuel)
      intro finished
      split
      · split
        · exact issues_reported plain report env none
        · exact issues_toJavaObject plain env obj val true
      · exact issues_bind (issues_freeValue val) fun _ => trivial

include slot store put in
theorem within_jsFnCallback (func thisObj : JSValue) (argv : List JSValue) :
    (jsFnCallback func thisObj argv).Within (fun c => kinds c.kind) (JobGuarded kinds) := by
  have widen : ∀ {R : Type} {p : Program R}, Issues kinds p → p.Within (fun c => kinds c.kind)
    (JobGuarded kinds) :=
    fun may => Prog.within_mono may (fun _ ok => ok) fun _ ok => ok.2
  have arguments : Issues kinds (Wrapper.callbackArguments thisObj argv) := by
    induction argv with
    | nil => trivial
    | cons v argv ih =>
      apply issues_bind (issues_toJavaObject plain .saved thisObj v false)
      intro arg
      exact issues_bind ih fun _ => trivial
  have back : ∀ id args, (Wrapper.callFunctionBack id args).Within (fun c => kinds c.kind)
      (JobGuarded kinds) := by
    intro id args
    apply Prog.within_bind
    · exact widen (issues_askJava plain)
    intro found
    split
    · refine Prog.within_bind ⟨nofun, fun _ => trivial⟩ fun ret => ?_
      split
      · exact Prog.within_bind (widen (issues_act put)) fun _ => trivial
      · trivial
    · exact Prog.within_bind (widen (issues_act plain)) fun _ => trivial
  apply Prog.within_bind
  · exact widen (issues_askInt plain)
  intro callbackId
  apply Prog.within_bind
  · exact widen (issues_act slot)
  intro _
  apply Prog.within_bind (widen arguments)
  intro javaArgs
  apply Prog.within_bind (back callbackId javaArgs)
  intro result
  apply Prog.within_bind (widen (issues_toJSValue plain store .saved result))
  intro jsValue
  exact Prog.within_bind (widen (issues_when (issues_act plain))) fun _ => trivial

include report in
theorem issues_evalBufModule (buf fileName : List UInt8) :
    Issues kinds (Wrapper.evalBufModule buf fileName) := by
  have dumpObj : ∀ v, Issues kinds (Wrapper.jsDumpObj v) := fun v =>
    issues_bind (issues_enterText rfl) fun _ => trivial
  have dumpStack : ∀ v, Issues kinds (Wrapper.jsDumpStack v) := by
    intro v
    apply issues_bind (issues_enterValue rfl)
    intro val
    exact issues_bind (issues_when (dumpObj val)) fun _ => issues_freeValue val
  have dumpError : Issues kinds Wrapper.jsStdDumpError := by
    apply issues_bind (issues_askValue report)
    intro exceptionVal
    apply issues_bind (issues_ask plain)
    intro isError
    apply issues_bind (dumpObj exceptionVal)
    intro _
    exact issues_bind (issues_when (dumpStack exceptionVal)) fun _ => issues_freeValue _
  apply issues_bind (issues_enterValue rfl)
  intro compiled
  apply issues_bind
  · unfold Wrapper.evalCompiled
    split
    · trivial
    · exact issues_bind (issues_enter rfl) fun _ => issues_enterValue rfl
  · intro val
    exact issues_bind (issues_when dumpError) fun _ => issues_freeValue val

omit plain in
theorem issues_javaResult {p : Program (Option JavaObject)} (may : Issues kinds p) :
    Issues kinds (javaResult p) :=
  issues_bind may fun _ => trivial

omit plain in
theorem issues_unitResult {p : Program Unit} (may : Issues kinds p) :
    Issues kinds (unitResult p) :=
  issues_bind may fun _ => trivial

theorem issues_nonNull {env : JNIEnv} {argument : Option JavaString} {message : String}
    {p : JavaString → Program Answer} (may : ∀ s, Issues kinds (p s)) :
    Issues kinds (nonNull env argument message p) := by
  cases argument with
  | none => exact issues_bind (issues_act plain) fun _ => trivial
  | some s => exact may s

/-- The native methods that end with the job loop. -/
def NativeOp.hasLoop : NativeOp → Bool
  | .evaluate _ _ _ | .evaluateModule _ _ _ | .execute _ _ | .call _ _ _ _ => true
  | _ => false

def NativeOp.converts : NativeOp → Bool
  | .setProperty _ _ _ | .set _ _ _ | .call _ _ _ _ => true
  | _ => false

include report in
theorem issues_program {op : NativeOp} (made : op.isConstructor = false)
    (store : op.converts = true → kinds .store) (loop : op.hasLoop = true → kinds .loop)
    (slot : op.hasLoop = true → kinds .slot) (t : ThreadId) :
    Issues kinds (op.program t) := by
  cases op with
  | createContext => cases made
  | runGC => exact issues_unitResult (issues_enter rfl)
  | evaluate script fileName fuel =>
    exact issues_nonNull plain fun script => issues_nonNull plain fun fileName =>
      issues_javaResult (issues_evaluate plain report (loop rfl) (slot rfl) _ script fileName fuel)
  | evaluateModule script fileName fuel =>
    exact issues_nonNull plain fun script => issues_nonNull plain fun fileName =>
      issues_javaResult (issues_evaluateModule plain report (loop rfl) (slot rfl) _ script fileName fuel)
  | compile source fileName isModule =>
    exact issues_nonNull plain fun source => issues_nonNull plain fun fileName =>
      issues_bind (issues_compile plain report _ source fileName isModule) fun _ => trivial
  | execute bytecode fuel =>
    cases bytecode with
    | none => trivial
    | some bytecode => exact issues_javaResult (issues_execute plain report (loop rfl) (slot rfl) _
      bytecode fuel)
  | getGlobalObject => exact issues_javaResult (issues_getGlobalObject plain _)
  | getProperty objValue name =>
    exact issues_nonNull plain fun name => issues_javaResult (issues_getProperty plain report _ _ name)
  | setProperty objValue name value =>
    exact issues_nonNull plain fun name =>
      issues_unitResult (issues_setProperty plain (store rfl) _ _ name value)
  | length objValue => exact issues_bind (issues_length plain report _ objValue) fun _ => trivial
  | get objValue index => exact issues_javaResult (issues_get plain _ objValue index)
  | set objValue value index => exact issues_unitResult (issues_set plain (store rfl) _ _ value index)
  | freeValue objValue => exact issues_unitResult (issues_freeValueNative plain objValue)
  | call func thisObj args fuel =>
    exact issues_javaResult (issues_call plain report (loop rfl) (slot rfl) (store rfl) _ func thisObj args
      fuel)
  | stringify objValue => exact issues_javaResult (issues_jsonStringify plain report _ objValue)
  | parseJSON json =>
    exact issues_nonNull plain fun json => issues_javaResult (issues_parseJSON plain report _ json)

end Operations

end Bounds
end QuickJSBridge
