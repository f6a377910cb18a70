import QuickJSBridge.ReportedErrors

/- Which failures an operation looks for. Each of them looks at the answers of some of its engine
   calls and takes the JS exception where one has failed; the other answers are dropped. -/
namespace QuickJSBridge
open HostProgram ReentrantMachine

section Checks

/-- Calls whose failure the operation looks for. After its main evaluation, execute only looks
    where it has run the job loop. -/
def NativeOp.checks (op : NativeOp) (e : EngineCall) (s : World) : Bool :=
  match op, e with
  | .evaluate _ _ _, .eval _ _ _ | .evaluateModule _ _ _, .eval _ _ _ => true
  | .compile _ _ _, .eval _ _ _ | .compile _ _ _, .writeObject _ => true
  | .execute _ _, .readObject _ => true
  | .execute _ _, .evalFunction _ => s.javaException.isNone
  | .call _ _ _ _, .call _ _ _ => true
  | .getProperty _ _, .getPropertyStr _ _ | .length _, .getPropertyStr _ _ => true
  | .stringify _, .jsonStringify _ | .parseJSON _, .parseJSON _ => true
  | op, .jobFunc => op.hasLoop
  | _, _ => false

def EngineCall.failedBy (e : EngineCall) (a : Answer) : Bool :=
  match e with
  | .writeObject _ => (a.toText.filter (!·.isEmpty)).isNone
  | _ => a.toValue.isException

def NativeOp.looksFor (op : NativeOp) : BridgeItem → Bool
  | .call (.engine e) a s => op.checks e s && e.failedBy a
  | _ => false

def textless : BridgeItem → Bool
  | .call (.engine (.toCString _)) a _ => a.toText.isNone
  | _ => false

def callsEngine : BridgeItem → Bool
  | .call _ _ _ => true
  | .prim _ _ _ => false

/-- The exception that the calls after the first failure the operation looks for have left
    pending, or where it finds none, all its calls. -/
def NativeOp.exceptionAfterCheck (op : NativeOp) (w : World) (h : BridgeHistory) : JSValue :=
  match h.dropWhile fun item => !op.looksFor item with
  | [] => leftBy callsEngine World.exception w.exception h
  | _ :: rest => leftBy callsEngine World.exception .null rest

def NativeOp.dies : NativeOp → Bool
  | .execute none _ => true
  | _ => false

/-- When calls fail, one of them is a call that the operation looks at, or Java code has left an
    exception, and every text can be made; what is called after that leaves no JS exception. -/
def Surfaced (op : NativeOp) (w : World) (h : BridgeHistory) : Prop :=
  (h.any failed = true → h.any textless = false ∧
    (h.any op.looksFor = true ∨ (carriedException w h).isSome = true)) ∧
  (op.dies = false → h.any textless = false → op.exceptionAfterCheck w h = .null)

end Checks

section Deaths
variable {R S : Type}

abbrev Dies (p : Program R) : Prop := Ends bridge.meaning p fun h out => crashes out = h.any textless

theorem dies_ret {r : R} : Dies (.ret r) := ends_ret rfl

theorem dies_spin : Dies (.spin : Program R) := fun _ _ _ _ run => (exec_spin run).elim

theorem dies_prim {c : Prim} {next : Answer → Program R} (rest : ∀ a, Dies (next a)) :
    Dies (.prim c next) :=
  ends_prim fun _ a _ _ => rest a

theorem dies_enter {e : ForeignCall} {next : Answer → Program R}
    (other : ∀ a s, textless (.call e a s) = false) (rest : ∀ a, Dies (next a)) :
    Dies (.enter e next) := by
  refine ends_enter fun _ a s _ w h out u run => ?_
  have last : crashes out = h.any textless := rest a w h out u run
  simpa [other] using last

theorem dies_bind {p : Program R} {f : R → Program S} (first : Dies p) (rest : ∀ r, Dies (f r)) :
    Dies (p.bind f) := by
  refine ends_bind first (fun _ dead => dead) fun r h lived w later out u run => ?_
  have last : crashes out = later.any textless := rest r w later out u run
  replace lived : false = h.any textless := lived
  simpa [← lived] using last

theorem dies_act (c : Prim) : Dies (act c) := dies_prim fun _ => dies_ret

theorem dies_enterValue {e : EngineCall} (other : ∀ a s, textless (.call (.engine e) a s) = false) :
    Dies (enterValue e) :=
  dies_enter other fun _ => dies_ret

theorem dies_toCString {v : JSValue} {f : Option (List UInt8) → Program R}
    (dead : Ends bridge.meaning (f none) fun _ out => crashes out = true)
    (rest : ∀ bytes, Dies (f (some bytes))) : Dies ((enterText (.toCString v)).bind f) := by
  refine ends_enter fun _ a s _ w h out u run => ?_
  replace run : Exec bridge.meaning (f a.toText) w h out u := run
  cases text : a.toText with
  | none =>
    rw [text] at run
    have last : crashes out = true := dead w h out u run
    simp [textless, text, last]
  | some bytes =>
    rw [text] at run
    have last : crashes out = h.any textless := rest bytes w h out u run
    simpa [textless, text] using last

theorem dies_when {p : Program Unit} {condition : Bool} (dies : Dies p) : Dies (p.when condition) := by
  cases condition with
  | true => exact dies
  | false => exact dies_ret

theorem dies_freeValue (v : JSValue) : Dies (freeValue v) := by
  unfold freeValue
  split
  · exact dies_ret
  · exact dies_enter (fun _ _ => rfl) fun _ => dies_ret

theorem dies_freeValues (vs : List JSValue) : Dies (Wrapper.freeValues vs) := by
  induction vs with
  | nil => exact dies_ret
  | cons v vs ih => exact dies_bind (dies_freeValue v) fun _ => ih

theorem ends_newStringUTF {f : Option JavaObject → Program R} (env : JNIEnv) :
    Ends bridge.meaning ((newStringUTF env none).bind f) fun _ out => crashes out = true :=
  ends_crash rfl

theorem dies_toJavaObject (env : JNIEnv) (thisObj value : JSValue) (nonJsCallback : Bool) :
    Dies (toJavaObject env thisObj value nonJsCallback) := by
  have one : ∀ c, Dies (askJava c) := fun c => dies_prim fun _ => dies_ret
  cases value with
  | string p s =>
    refine dies_toCString (ends_newStringUTF env) fun bytes => ?_
    refine dies_bind (one _) fun result => ?_
    exact dies_bind (dies_when (dies_freeValue _)) fun _ => dies_ret
  | object p =>
    have handle : Dies (newHandle env thisObj (.object p) (!nonJsCallback)) := by
      refine dies_bind (dies_prim fun _ => dies_ret) fun isFunction => ?_
      split
      · exact one _
      · refine dies_bind (dies_enter (fun _ _ => rfl) fun _ => dies_ret) fun isArray => ?_
        split <;> exact one _
    have keep : Dies (keepValue (.object p)) := by
      refine dies_bind (dies_prim fun _ => dies_ret) fun known => ?_
      split
      · exact dies_freeValue _
      · exact dies_act _
    refine dies_bind handle fun result => ?_
    exact dies_bind (dies_when keep) fun _ => dies_ret
  | float64 d =>
    simp only [toJavaObject]
    split <;> exact one _
  | bool b => exact one _
  | int n => exact one _
  | bigInt p n => exact one _
  | _ => exact dies_ret

theorem dies_toJSValue (env : JNIEnv) (o : Option JavaObject) : Dies (toJSValue env o) := by
  cases o with
  | none => exact dies_ret
  | some o =>
    cases o with
    | string s => exact dies_prim fun _ => dies_enterValue fun _ _ => rfl
    | long n =>
      refine dies_bind (dies_act _) fun _ => ?_
      split
      · exact dies_enterValue fun _ _ => rfl
      · exact dies_ret
    | callFunction f =>
      refine dies_bind (dies_enterValue fun _ _ => rfl) fun result => ?_
      refine dies_bind (dies_prim fun _ => dies_ret) fun callbackId => ?_
      exact dies_bind (dies_act _) fun _ => dies_ret
    | _ => exact dies_bind (dies_act _) fun _ => dies_ret

theorem dies_callArguments (env : JNIEnv) (args : List (Option JavaObject))
    (arguments freeArguments : List JSValue) :
    Dies (Wrapper.callArguments env args arguments freeArguments) := by
  induction args generalizing arguments freeArguments with
  | nil => exact dies_ret
  | cons arg args ih =>
    refine dies_bind (dies_prim fun _ => dies_ret) fun pending => ?_
    split
    · exact dies_ret
    · refine dies_bind (dies_toJSValue env arg) fun jsArg => ?_
      split
      · exact dies_ret
      · exact ih _ _

theorem dies_appendText (v : JSValue) : Dies (appendText v) :=
  dies_toCString (ends_crash rfl) fun _ => dies_ret

theorem dies_appendStack (val : JSValue) : Dies (appendStack val) := by
  unfold appendStack
  split
  · exact dies_ret
  · exact dies_bind (dies_appendText val) fun _ => dies_ret

theorem dies_tryToTriggerOnError (error : JSValue) : Dies (tryToTriggerOnError error) := by
  have read : ∀ obj name, Dies (enterValue (.getPropertyStr obj name)) :=
    fun obj name => dies_enterValue fun _ _ => rfl
  refine dies_bind (dies_prim fun _ => dies_ret) fun global => ?_
  refine dies_bind (dies_bind (read _ _) fun onerror => ?_) fun onerror => ?_
  · split
    · exact read _ _
    · exact dies_ret
  · split
    · exact dies_ret
    · refine dies_bind (dies_enterValue fun _ _ => rfl) fun _ => ?_
      exact dies_bind (dies_freeValue onerror) fun _ => dies_freeValue global

theorem dies_getJSErrorStr (error : JSValue) : Dies (getJSErrorStr error) := by
  refine dies_bind (dies_prim fun _ => dies_ret) fun isError => ?_
  split
  · refine dies_bind (dies_tryToTriggerOnError error) fun _ => ?_
    refine dies_bind (dies_enterValue fun _ _ => rfl) fun message => ?_
    refine dies_bind (dies_appendText message) fun text => ?_
    refine dies_bind (dies_freeValue message) fun _ => ?_
    refine dies_bind (dies_enterValue fun _ _ => rfl) fun val => ?_
    refine dies_bind (dies_appendStack val) fun stack => ?_
    exact dies_bind (dies_freeValue val) fun _ => dies_ret
  · exact dies_appendText error

theorem dies_getPendingErrorStr : Dies getPendingErrorStr := by
  refine dies_bind (dies_prim fun _ => dies_ret) fun error => ?_
  refine dies_bind (dies_getJSErrorStr error) fun text => ?_
  exact dies_bind (dies_freeValue error) fun _ => dies_ret

theorem dies_throwJSException (env : JNIEnv) (text : List Piece) : Dies (throwJSException env text) := by
  refine dies_bind (dies_prim fun _ => dies_ret) fun pending => ?_
  split
  · exact dies_ret
  · exact dies_act _

theorem dies_throwPendingJSException (env : JNIEnv) : Dies (throwPendingJSException env) :=
  dies_bind dies_getPendingErrorStr fun error => dies_throwJSException env error

theorem dies_rejectionsText (fuel : Nat) (error : List Piece) : Dies (rejectionsText fuel error) := by
  induction fuel generalizing error with
  | zero => exact dies_spin
  | succ fuel ih =>
    refine dies_bind (dies_prim fun _ => dies_ret) fun empty => ?_
    split
    · exact dies_ret
    · refine dies_bind (dies_prim fun _ => dies_ret) fun reason => ?_
      refine dies_bind (dies_getJSErrorStr reason) fun text => ?_
      refine dies_bind (dies_freeValue reason) fun _ => ?_
      exact dies_bind (dies_act _) fun _ => ih _

theorem dies_throwIfUnhandledRejections (fuel : Nat) : Dies (throwIfUnhandledRejections fuel) := by
  refine dies_bind (dies_rejectionsText fuel []) fun error => ?_
  split
  · exact dies_ret
  · exact dies_bind (dies_throwJSException _ _) fun _ => dies_ret

theorem dies_executePendingJob : Dies executePendingJob := by
  refine dies_bind (dies_prim fun _ => dies_ret) fun empty => ?_
  split
  · exact dies_ret
  · refine dies_bind (dies_act _) fun _ => ?_
    refine dies_bind (dies_enterValue fun _ _ => rfl) fun res => ?_
    exact dies_bind (dies_freeValue res) fun _ => dies_ret

theorem dies_pendingJobRounds (env : JNIEnv) (fuel : Nat) : Dies (pendingJobRounds env fuel) := by
  induction fuel with
  | zero => exact dies_spin
  | succ fuel ih =>
    refine dies_bind dies_executePendingJob fun err => ?_
    split
    · exact ih
    · split
      · refine dies_bind dies_getPendingErrorStr fun error => ?_
        exact dies_bind (dies_throwJSException env error) fun _ => dies_ret
      · exact dies_ret

theorem dies_executePendingJobLoop (env : JNIEnv) (fuel : Nat) :
    Dies (executePendingJobLoop env fuel) := by
  refine dies_bind (dies_prim fun _ => dies_ret) fun pending => ?_
  split
  · exact dies_ret
  · refine dies_bind (dies_pendingJobRounds env fuel) fun finished => ?_
    split
    · refine dies_bind (dies_act _) fun _ => ?_
      exact dies_bind (dies_throwIfUnhandledRejections fuel) fun _ => dies_ret
    · exact dies_ret

theorem dies_checked {env : JNIEnv} {v : JSValue} {r : R} {p : Program R} (dies : Dies p) :
    Dies (if v.isException then (throwPendingJSException env).bind fun _ => .ret r else p) := by
  split
  · exact dies_bind (dies_throwPendingJSException env) fun _ => dies_ret
  · exact dies

theorem dies_looped {env : JNIEnv} {fuel : Nat} {v : JSValue} {r : R} {result : Program R}
    (dies : Dies result) : Dies ((executePendingJobLoop env fuel).bind fun finished =>
      if finished then result else (freeValue v).bind fun _ => .ret r) := by
  refine dies_bind (dies_executePendingJobLoop env fuel) fun finished => ?_
  split
  · exact dies
  · exact dies_bind (dies_freeValue v) fun _ => dies_ret

theorem dies_globalResult (env : JNIEnv) (result : JSValue) :
    Dies ((askValue .getGlobalObject).bind fun global => (toJavaObject env global result true).bind
      fun jsObj => (freeValue global).bind fun _ => .ret jsObj) := by
  refine dies_bind (dies_prim fun _ => dies_ret) fun global => ?_
  refine dies_bind (dies_toJavaObject env global result true) fun jsObj => ?_
  exact dies_bind (dies_freeValue global) fun _ => dies_ret

theorem dies_nonNull {env : JNIEnv} {argument : Option JavaString} {message : String}
    {p : JavaString → Program Answer} (given : ∀ s, Dies (p s)) : Dies (nonNull env argument message p) := by
  cases argument with
  | none => exact dies_bind (dies_act _) fun _ => dies_ret
  | some s => exact given s

theorem dies_result {p : Program R} {f : R → S} (dies : Dies p) : Dies (p.bind fun r => .ret (f r)) :=
  dies_bind dies fun _ => dies_ret

theorem dies_getStringUTFChars (env : JNIEnv) (s : JavaString) : Dies (getStringUTFChars env s) :=
  dies_prim fun _ => dies_ret

theorem dies_evaluated (env : JNIEnv) (fuel : Nat) (v : JSValue) :
    Dies (if v.isException then (throwPendingJSException env).bind fun _ => .ret none
      else (executePendingJobLoop env fuel).bind fun finished =>
        if finished then (askValue .getGlobalObject).bind fun global =>
          (toJavaObject env global v true).bind fun jsObj => (freeValue global).bind fun _ => .ret jsObj
        else (freeValue v).bind fun _ => .ret none) :=
  dies_checked (dies_looped (dies_globalResult env v))

theorem dies_call (env : JNIEnv) (func thisObj : Nat) (args : List (Option JavaObject)) (fuel : Nat) :
    Dies (Wrapper.call env func thisObj args fuel) := by
  refine dies_bind (dies_callArguments env args [] []) fun converted => ?_
  cases converted with
  | none => exact dies_ret
  | some converted =>
    refine dies_bind (dies_enterValue fun _ _ => rfl) fun ret => dies_checked ?_
    refine dies_bind (dies_freeValues _) fun _ => dies_looped ?_
    exact dies_toJavaObject env _ ret true

theorem dies_execute (env : JNIEnv) (byteCode : List UInt8) (fuel : Nat) :
    Dies (Wrapper.execute env byteCode fuel) := by
  refine dies_bind (dies_enterValue fun _ _ => rfl) fun obj => dies_checked ?_
  refine dies_bind (dies_enter (fun _ _ => rfl) fun _ => dies_ret) fun status => ?_
  split
  · exact dies_ret
  · refine dies_bind (dies_enterValue fun _ _ => rfl) fun val => dies_looped ?_
    exact dies_checked (dies_toJavaObject env obj val true)

theorem dies_compile (env : JNIEnv) (source fileName : JavaString) (isModule : Bool) :
    Dies (Wrapper.compile env source fileName isModule) := by
  refine dies_bind (dies_getStringUTFChars env source) fun source => ?_
  refine dies_bind (dies_getStringUTFChars env fileName) fun fileName => ?_
  refine dies_bind (dies_enterValue fun _ _ => rfl) fun compiled => dies_checked ?_
  refine dies_bind (dies_enter (fun _ _ => rfl) fun _ => dies_ret) fun buffer => ?_
  refine dies_bind (dies_when (dies_throwPendingJSException env)) fun _ => ?_
  exact dies_bind (dies_freeValue compiled) fun _ => dies_ret

theorem dies_jsonStringify (env : JNIEnv) (objValue : Nat) : Dies (Wrapper.jsonStringify env objValue) := by
  refine dies_bind (dies_enterValue fun _ _ => rfl) fun obj => dies_checked ?_
  refine dies_toCString ?_ fun bytes => ?_
  · refine ends_bind (dies_freeValue obj) ?_ fun _ _ _ => ends_crash rfl
    exact fun _ _ => rfl
  · exact dies_bind (dies_freeValue obj) fun _ => dies_prim fun _ => dies_ret

theorem dies_setProperty (env : JNIEnv) (thisObj : Nat) (name : JavaString) (value : Option JavaObject) :
    Dies (Wrapper.setProperty env thisObj name value) := by
  have stored : ∀ e : EngineCall, (∀ a s, textless (.call (.engine e) a s) = false) →
      Dies ((enterInt e).bind fun _ => (.ret () : Program Unit)) :=
    fun e other => dies_enter other fun _ => dies_ret
  refine dies_bind (dies_getStringUTFChars env name) fun propName => ?_
  refine dies_bind (dies_toJSValue env value) fun propValue => ?_
  refine dies_bind ?_ fun _ => stored _ fun _ _ => rfl
  unfold Wrapper.prepareProperty
  split
  · exact dies_act _
  · exact dies_act _
  · exact stored _ fun _ _ => rfl
  · exact dies_ret

theorem dies_program {op : NativeOp} (made : op.isConstructor = false) (given : op.dies = false)
    (t : ThreadId) : Dies (op.program t) := by
  cases op with
  | createContext => cases made
  | evaluate script fileName fuel =>
    refine dies_nonNull fun script => dies_nonNull fun fileName => dies_result ?_
    refine dies_bind (dies_getStringUTFChars _ script) fun script => ?_
    refine dies_bind (dies_getStringUTFChars _ fileName) fun fileName => ?_
    exact dies_bind (dies_enterValue fun _ _ => rfl) fun v => dies_evaluated _ fuel v
  | evaluateModule script fileName fuel =>
    refine dies_nonNull fun script => dies_nonNull fun fileName => dies_result ?_
    refine dies_bind (dies_getStringUTFChars _ script) fun script => ?_
    refine dies_bind (dies_getStringUTFChars _ fileName) fun fileName => ?_
    exact dies_bind (dies_enterValue fun _ _ => rfl) fun v => dies_evaluated _ fuel v
  | compile source fileName isModule =>
    exact dies_nonNull fun source => dies_nonNull fun fileName =>
      dies_result (dies_compile _ source fileName isModule)
  | execute bytecode fuel =>
    cases bytecode with
    | none => cases given
    | some bytecode => exact dies_result (dies_execute _ bytecode fuel)
  | getProperty objValue name =>
    refine dies_nonNull fun name => dies_result ?_
    refine dies_bind (dies_getStringUTFChars _ name) fun name => ?_
    refine dies_bind (dies_enterValue fun _ _ => rfl) fun v => dies_checked ?_
    exact dies_toJavaObject _ _ v true
  | length objValue =>
    refine dies_result (dies_bind (dies_enterValue fun _ _ => rfl) fun v => dies_checked ?_)
    exact dies_bind (dies_freeValue v) fun _ => dies_ret
  | stringify objValue => exact dies_result (dies_jsonStringify _ objValue)
  | parseJSON json =>
    refine dies_nonNull fun json => dies_result ?_
    refine dies_bind (dies_getStringUTFChars _ json) fun json => ?_
    refine dies_bind (dies_enterValue fun _ _ => rfl) fun v => dies_checked ?_
    exact dies_toJavaObject _ _ v true
  | call func thisObj args fuel => exact dies_result (dies_call _ func thisObj args fuel)
  | runGC => exact dies_bind (dies_enter (fun _ _ => rfl) fun _ => dies_ret) fun _ => dies_ret
  | getGlobalObject =>
    refine dies_result (dies_bind (dies_prim fun _ => dies_ret) fun value => ?_)
    refine dies_bind (dies_prim fun _ => dies_ret) fun result => ?_
    exact dies_bind (dies_freeValue value) fun _ => dies_ret
  | setProperty objValue name value =>
    exact dies_nonNull fun name => dies_bind (dies_setProperty _ objValue name value) fun _ => dies_ret
  | get objValue index =>
    refine dies_result (dies_bind (dies_enterValue fun _ _ => rfl) fun child => ?_)
    exact dies_toJavaObject _ _ child true
  | set objValue value index =>
    refine dies_bind (dies_bind (dies_toJSValue _ value) fun child => ?_) fun _ => dies_ret
    refine dies_bind (dies_when (dies_act _)) fun _ => ?_
    exact dies_enter (fun _ _ => rfl) fun _ => dies_ret
  | freeValue objValue =>
    refine dies_bind (dies_bind (dies_prim fun _ => dies_ret) fun known => ?_) fun _ => dies_ret
    split
    · exact dies_freeValue _
    · exact dies_ret

end Deaths

section Attention
variable {R S : Type} {op : NativeOp} {w u : World} {h later : BridgeHistory}

theorem beforeTaking_untaken (none : h.any takesException = false) :
    beforeTaking (h ++ later) = h ++ beforeTaking later := by
  unfold beforeTaking
  rw [List.takeWhile_append_of_pos]
  simpa using none

theorem beforeTaking_taken (some : h.any takesException = true) :
    beforeTaking (h ++ later) = beforeTaking h := by
  unfold beforeTaking
  induction h with
  | nil => cases some
  | cons item h ih =>
    rw [List.cons_append, List.takeWhile_cons, List.takeWhile_cons]
    cases takes : takesException item with
    | true => rfl
    | false =>
      rw [List.any_cons, takes] at some
      simp [ih some]

theorem beforeTaking_all (none : h.any takesException = false) : beforeTaking h = h := by
  have untaken : beforeTaking (h ++ []) = h ++ beforeTaking [] := beforeTaking_untaken none
  simpa [beforeTaking] using untaken

def Attended (op : NativeOp) (h : BridgeHistory) : Prop :=
  (beforeTaking h).any op.looksFor = h.any takesException

/-- The program attends to the failures the operation looks for, as long as no rejection is
    recorded. -/
def Attends (op : NativeOp) (p : Program R) : Prop :=
  ∀ ⦃w h out u⦄, w.unhandledRejections = [] → Exec bridge.meaning p w h out u → Attended op h

theorem attended_append (first : Attended op h)
    (rest : h.any takesException = false → Attended op later) : Attended op (h ++ later) := by
  unfold Attended at first rest ⊢
  cases taken : h.any takesException with
  | true => rw [beforeTaking_taken taken, first, List.any_append, taken, Bool.true_or]
  | false =>
    rw [beforeTaking_all taken, taken] at first
    rw [beforeTaking_untaken taken, List.any_append, List.any_append, first, taken, rest taken]

theorem attends_ret {r : R} : Attends op (.ret r) := by
  intro w h out u none run
  obtain ⟨rfl, -, -⟩ := exec_ret run
  rfl

theorem attends_bind {p : Program R} {f : R → Program S} (first : Attends op p)
    (rest : ∀ r, Attends op (f r)) : Attends op (p.bind f) := by
  intro w h out u none run
  rcases exec_bind run with ⟨r, s, before, after, one, two, rfl⟩ | ⟨one, -⟩
  · exact attended_append (first none one) fun _ => rest r (chain_rejections (exec_chain one) none) two
  · exact first none one

def NativeOp.ignores (op : NativeOp) (e : ForeignCall) : Prop := ∀ a s, op.looksFor (.call e a s) = false

theorem attends_quiet {p : Program R}
    (quiet : p.Within (fun c => c.takes = false) op.ignores) : Attends op p := by
  intro w h out u none run
  obtain ⟨acted, called⟩ := exec_within quiet run
  have silent : h.any takesException = false := by
    apply List.any_eq_false.2
    rintro (⟨c, a, s⟩ | ⟨e, a, s⟩) member taken
    · have same : takesException (.prim c a s) = c.takes := by cases c <;> rfl
      cases (acted c a s member).symm.trans (same.symm.trans taken)
    · cases taken
  have unlooked : h.any op.looksFor = false := by
    apply List.any_eq_false.2
    rintro (⟨c, a, s⟩ | ⟨e, a, s⟩) member looked
    · cases looked
    · cases (called e a s member a s).symm.trans looked
  unfold Attended
  rw [beforeTaking_all silent, unlooked, silent]

theorem steady_untaken {c : Prim} (may : Steady c.kind) : c.takes = false := by
  cases c <;> first | rfl | cases may

theorem ignores_marshalling {e : ForeignCall} (marshals : IsMarshalling e) : op.ignores e := by
  obtain ⟨call, rfl, may⟩ := marshals
  intro a s
  cases call <;> first | cases op <;> rfl | cases may

theorem attends_marshals {p : Program R} (marshals : Marshals Steady p) : Attends op p :=
  attends_quiet (Prog.within_mono marshals (fun _ => steady_untaken) fun _ => ignores_marshalling)

theorem attends_freeValue (v : JSValue) : Attends op (freeValue v) :=
  attends_marshals (marshals_freeValue v)

theorem attends_unchecked {p : Program R} (issues : Issues Steady p)
    (none : ∀ e s, op.checks e s = false) : Attends op p := by
  refine attends_quiet (Prog.within_mono issues (fun _ => steady_untaken) ?_)
  rintro (e | ⟨f, args⟩) ⟨engine, -⟩ a s
  · simp [NativeOp.looksFor, none]
  · cases engine

theorem attends_checked {e : EngineCall} {env : JNIEnv} {r : R} {rest : JSValue → Program R}
    (checks : ∀ s, op.checks e s = true) (byValue : ∀ a, e.failedBy a = a.toValue.isException)
    (fine : ∀ v, Attends op (rest v)) : Attends op ((enterValue e).bind fun v =>
      if v.isException then (throwPendingJSException env).bind fun _ => .ret r else rest v) := by
  intro w h out u none run
  obtain ⟨a, s, tail, answers, goes, rfl⟩ := exec_enter run
  replace goes : Exec bridge.meaning (if a.toValue.isException then
    (throwPendingJSException env).bind fun _ => .ret r else rest a.toValue) s tail out u := goes
  have looked : op.looksFor (.call (.engine e) a s) = a.toValue.isException := by
    simp [NativeOp.looksFor, checks, byValue]
  cases fails : a.toValue.isException with
  | true =>
    rw [fails] at goes looked
    have taken : tail.any takesException = true := reported_taken goes
    simp [Attended, beforeTaking, takesException, looked, taken]
  | false =>
    rw [fails] at goes looked
    refine attended_append (h := [.call (.engine e) a s]) ?_ fun _ => fine _
      (reply_rejections answers none) goes
    simp [Attended, beforeTaking, takesException, looked]

def ForeignCall.isRound : ForeignCall → Bool
  | .engine .jobFunc | .engine (.freeValue _) => true
  | _ => false

theorem round_executePendingJob : executePendingJob.Within (fun c => c.takes = false)
    fun e => e.isRound = true := by
  refine Prog.within_bind ⟨rfl, fun _ => trivial⟩ fun empty => ?_
  split
  · trivial
  · refine Prog.within_bind ⟨rfl, fun _ => trivial⟩ fun _ => ?_
    refine Prog.within_bind ⟨rfl, fun _ => trivial⟩ fun res => ?_
    refine Prog.within_bind ?_ fun _ => trivial
    unfold freeValue
    split
    · trivial
    · exact ⟨rfl, fun _ => trivial⟩

theorem round_looked (loops : op.hasLoop = true) {item : BridgeItem}
    (round : ∀ e a s, item = .call e a s → e.isRound = true) : op.looksFor item = jobFails item := by
  cases item with
  | prim c a s => rfl
  | call e a s =>
    have job := round e a s rfl
    rcases e with (e | ⟨f, args⟩)
    · cases e with
      | jobFunc => cases a <;> cases op <;> first | rfl | cases loops
      | freeValue v => cases op <;> rfl
      | _ => cases job
    · cases job

theorem attends_pendingJobRounds (loops : op.hasLoop = true) (env : JNIEnv) (fuel : Nat) :
    Attends op (pendingJobRounds env fuel) := by
  induction fuel with
  | zero =>
    intro w h out u none run
    exact (exec_spin run).elim
  | succ fuel ih =>
    intro w h out u none run
    rcases exec_bind run with ⟨err, s, before, after, first, rest, rfl⟩ | ⟨first, -⟩
    · obtain ⟨silent, _, same, which, fails⟩ := exec_executePendingJob first
      cases same
      obtain ⟨-, called⟩ := exec_within round_executePendingJob first
      have looked : before.any op.looksFor = decide (err < 0) := by
        rw [← fails, Bool.eq_iff_iff, List.any_eq_true, List.any_eq_true]
        refine exists_congr fun item => and_congr_right fun member => ?_
        rw [round_looked loops]
        rintro e a s rfl
        exact called e a s member
      unfold Attended
      rw [beforeTaking_untaken silent, List.any_append, List.any_append, looked, silent]
      rcases which with rfl | rfl | rfl
      · obtain ⟨rfl, -, -⟩ := exec_ret rest
        rfl
      · exact ih (chain_rejections (exec_chain first) none) rest
      · replace rest : Exec bridge.meaning (getPendingErrorStr.bind fun error =>
            (throwJSException env error).bind fun _ => .ret false) s after out u := rest
        simp [taken_first rest]
    · obtain ⟨-, _, dead, -⟩ := exec_executePendingJob first
      cases dead

theorem attends_prim {c : Prim} {next : Answer → Program R} (other : c.takes = false)
    (rest : ∀ a, Attends op (next a)) : Attends op (.prim c next) :=
  attends_bind (p := .prim c fun a => .ret a) (attends_quiet ⟨other, fun _ => trivial⟩) rest

theorem attends_executePendingJobLoop (loops : op.hasLoop = true) (env : JNIEnv) (fuel : Nat) :
    Attends op (executePendingJobLoop env fuel) := by
  refine attends_bind (attends_prim rfl fun _ => attends_ret) fun pending => ?_
  split
  · exact attends_ret
  · refine attends_bind (attends_pendingJobRounds loops env fuel) fun finished => ?_
    split
    · refine attends_bind (attends_prim rfl fun _ => attends_ret) fun _ => ?_
      refine attends_bind ?_ fun _ => attends_ret
      intro w h out u none run
      obtain ⟨-, rfl⟩ := exec_throwIfUnhandledRejections none run
      rfl
    · exact attends_ret

theorem attends_looped (loops : op.hasLoop = true) {env : JNIEnv} {fuel : Nat} {v : JSValue} {r : R}
    {result : Program R} (attends : Attends op result) :
    Attends op ((executePendingJobLoop env fuel).bind fun finished =>
      if finished then result else (freeValue v).bind fun _ => .ret r) := by
  refine attends_bind (attends_executePendingJobLoop loops env fuel) fun finished => ?_
  split
  · exact attends
  · exact attends_bind (attends_freeValue v) fun _ => attends_ret

theorem attends_nonNull {env : JNIEnv} {argument : Option JavaString} {message : String}
    {p : JavaString → Program Answer} (given : ∀ s, Attends op (p s)) :
    Attends op (nonNull env argument message p) := by
  cases argument with
  | none => exact attends_bind (attends_prim rfl fun _ => attends_ret) fun _ => attends_ret
  | some s => exact given s

theorem attends_getStringUTFChars (env : JNIEnv) (s : JavaString) :
    Attends op (getStringUTFChars env s) := attends_prim rfl fun _ => attends_ret

theorem attends_result {p : Program R} {f : R → S} (attends : Attends op p) :
    Attends op (p.bind fun r => .ret (f r)) :=
  attends_bind attends fun _ => attends_ret

theorem attends_evaluated (loops : op.hasLoop = true) {e : EngineCall}
    (checks : ∀ s, op.checks e s = true) (byValue : ∀ a, e.failedBy a = a.toValue.isException)
    (env : JNIEnv) (fuel : Nat) : Attends op ((enterValue e).bind fun v =>
      if v.isException then (throwPendingJSException env).bind fun _ => .ret none
      else (executePendingJobLoop env fuel).bind fun finished =>
        if finished then (askValue .getGlobalObject).bind fun global =>
          (toJavaObject env global v true).bind fun jsObj => (freeValue global).bind fun _ => .ret jsObj
        else (freeValue v).bind fun _ => .ret none) := by
  refine attends_checked checks byValue fun v => ?_
  exact attends_looped loops (attends_marshals (marshals_globalResult steady_plain env v))

theorem attends_freeValues (values : List JSValue) : Attends op (Wrapper.freeValues values) := by
  induction values with
  | nil => exact attends_ret
  | cons v values ih => exact attends_bind (attends_freeValue v) fun _ => ih

theorem attends_call (env : JNIEnv) {func thisObj : Nat} {args : List (Option JavaObject)} {fuel : Nat} :
    Attends (.call func thisObj args fuel) (Wrapper.call env func thisObj args fuel) := by
  have converts := marshals_callArguments steady_plain steady_store env args [] []
  refine attends_bind (attends_marshals converts) fun converted => ?_
  cases converted with
  | none => exact attends_ret
  | some converted =>
    refine attends_checked (fun _ => rfl) (fun _ => rfl) fun ret => ?_
    refine attends_bind (attends_freeValues _) fun _ => attends_looped rfl ?_
    exact attends_marshals (marshals_toJavaObject steady_plain env _ ret true)

theorem taken_after_loop {env : JNIEnv} {fuel : Nat} {v : JSValue} {r : R} {result : Program R}
    {out : Outcome R} (none : w.unhandledRejections = [])
    (finds : (w.javaException.isNone && v.isException) = true)
    (run : Exec bridge.meaning ((executePendingJobLoop env fuel).bind fun finished =>
      if finished then if v.isException then (throwPendingJSException env).bind fun _ => .ret r else result
      else (freeValue v).bind fun _ => .ret r) w h out u) : h.any takesException = true := by
  obtain ⟨clear, fails⟩ := Bool.and_eq_true_iff.1 finds
  rcases exec_bind run with ⟨finished, s, looping, after, loop, last, rfl⟩ | ⟨loop, rfl⟩
  · rw [List.any_append]
    cases exec_executePendingJobLoop none loop with
    | skipped pending => simp [Option.isNone_iff_eq_none.1 clear] at pending
    | settled _ =>
      rw [fails] at last
      rw [reported_taken last, Bool.or_true]
    | failed _ _ taken => rw [taken, Bool.true_or]
  · cases exec_executePendingJobLoop none loop with
    | failed _ _ taken => exact taken

theorem attends_execute (env : JNIEnv) {byteCode : List UInt8} {fuel : Nat} :
    Attends (.execute (some byteCode) fuel) (Wrapper.execute env byteCode fuel) := by
  refine attends_checked (fun _ => rfl) (fun _ => rfl) fun obj => ?_
  refine attends_bind (attends_quiet ⟨fun _ _ => rfl, fun _ => trivial⟩) fun status => ?_
  split
  · exact attends_ret
  · intro w h out u clean run
    obtain ⟨a, s, tail, answers, goes, rfl⟩ := exec_enter run
    have here := reply_rejections answers clean
    replace goes : Exec bridge.meaning ((executePendingJobLoop env fuel).bind fun finished =>
        if finished then if a.toValue.isException then (throwPendingJSException env).bind fun _ => .ret none
          else toJavaObject env obj a.toValue true
        else (freeValue a.toValue).bind fun _ => .ret none) s tail out u := goes
    have looked : NativeOp.looksFor (.execute (some byteCode) fuel)
        (.call (.engine (.evalFunction obj)) a s) = (s.javaException.isNone && a.toValue.isException) := rfl
    cases finds : s.javaException.isNone && a.toValue.isException with
    | true =>
      have taken : tail.any takesException = true := taken_after_loop here finds goes
      simp [Attended, beforeTaking, takesException, looked, finds, taken]
    | false =>
      refine attended_append (h := [.call (.engine (.evalFunction obj)) a s]) ?_ fun _ => ?_
      · simp [Attended, beforeTaking, takesException, looked, finds]
      rcases exec_bind goes with ⟨finished, x, looping, after, loop, last, rfl⟩ | ⟨loop, -⟩
      · refine attended_append (attends_executePendingJobLoop rfl env fuel here loop) fun _ => ?_
        have later := chain_rejections (exec_chain loop) here
        cases exec_executePendingJobLoop here loop with
        | skipped pending =>
          exact attends_bind (attends_freeValue _) (fun _ => attends_ret) later last
        | settled clear =>
          rw [clear] at finds
          replace finds : a.toValue.isException = false := finds
          rw [finds] at last
          exact attends_marshals (marshals_toJavaObject steady_plain env obj a.toValue true) later last
        | failed clear stops =>
          cases finished with
          | true => exact absurd rfl stops
          | false => exact attends_bind (attends_freeValue _) (fun _ => attends_ret) later last
      · exact attends_executePendingJobLoop rfl env fuel here loop

theorem attends_compile (env : JNIEnv) {source fileName : JavaString} {isModule : Bool}
    {script name : Option JavaString} :
    Attends (.compile script name isModule) (Wrapper.compile env source fileName isModule) := by
  refine attends_bind (attends_getStringUTFChars env source) fun source => ?_
  refine attends_bind (attends_getStringUTFChars env fileName) fun fileName => ?_
  refine attends_checked (fun _ => rfl) (fun _ => rfl) fun compiled => ?_
  intro w h out u clean run
  obtain ⟨a, s, tail, answers, goes, rfl⟩ := exec_enter run
  replace goes : Exec bridge.meaning (((throwPendingJSException env).when
      (a.toText.filter (!·.isEmpty)).isNone).bind fun _ => (freeValue compiled).bind fun _ =>
        .ret (a.toText.filter (!·.isEmpty))) s tail out u := goes
  have looked : NativeOp.looksFor (.compile script name isModule)
      (.call (.engine (.writeObject compiled)) a s) = (a.toText.filter (!·.isEmpty)).isNone := rfl
  cases fails : (a.toText.filter (!·.isEmpty)).isNone with
  | true =>
    rw [fails] at goes looked
    replace goes : Exec bridge.meaning ((getPendingErrorStr.bind (throwJSException env)).bind
      fun _ => (freeValue compiled).bind fun _ => .ret (a.toText.filter (!·.isEmpty))) s tail out u := goes
    rw [Prog.bind_assoc] at goes
    simp [Attended, beforeTaking, takesException, looked, taken_first goes]
  | false =>
    rw [fails] at goes looked
    refine attended_append (h := [.call (.engine (.writeObject compiled)) a s]) ?_ fun _ => ?_
    · simp [Attended, beforeTaking, takesException, looked]
    · exact attends_bind (attends_freeValue compiled) (fun _ => attends_ret)
        (reply_rejections answers clean) goes

/-- Every native method of a wrapper that has been made takes the JS exception exactly where it
    finds a failure it looks for. -/
theorem attends_program {op : NativeOp} (made : op.isConstructor = false) (t : ThreadId) :
    Attends op (op.program t) := by
  cases op with
  | createContext => cases made
  | evaluate script fileName fuel =>
    refine attends_nonNull fun script => attends_nonNull fun fileName => attends_result ?_
    refine attends_bind (attends_getStringUTFChars _ script) fun script => ?_
    refine attends_bind (attends_getStringUTFChars _ fileName) fun fileName => ?_
    exact attends_evaluated rfl (fun _ => rfl) (fun _ => rfl) _ fuel
  | evaluateModule script fileName fuel =>
    refine attends_nonNull fun script => attends_nonNull fun fileName => attends_result ?_
    refine attends_bind (attends_getStringUTFChars _ script) fun script => ?_
    refine attends_bind (attends_getStringUTFChars _ fileName) fun fileName => ?_
    exact attends_evaluated rfl (fun _ => rfl) (fun _ => rfl) _ fuel
  | compile source fileName isModule =>
    exact attends_nonNull fun source => attends_nonNull fun fileName => attends_result (attends_compile _)
  | execute bytecode fuel =>
    cases bytecode with
    | none =>
      intro w h out u clean run
      obtain ⟨rfl, -, -⟩ := exec_crash run
      rfl
    | some bytecode => exact attends_result (attends_execute _)
  | getProperty objValue name =>
    refine attends_nonNull fun name => attends_result ?_
    refine attends_bind (attends_getStringUTFChars _ name) fun name => ?_
    refine attends_checked (fun _ => rfl) (fun _ => rfl) fun v => ?_
    exact attends_marshals (marshals_toJavaObject steady_plain _ _ v true)
  | length objValue =>
    refine attends_result (attends_checked (fun _ => rfl) (fun _ => rfl) fun v => ?_)
    exact attends_bind (attends_freeValue v) fun _ => attends_ret
  | stringify objValue =>
    refine attends_result (attends_checked (fun _ => rfl) (fun _ => rfl) fun obj => ?_)
    refine attends_bind (attends_quiet ⟨fun _ _ => rfl, fun _ => trivial⟩) fun result => ?_
    refine attends_bind (attends_freeValue obj) fun _ => ?_
    cases result with
    | none => exact attends_quiet (p := newStringUTF _ none) trivial
    | some bytes => exact attends_prim rfl fun _ => attends_ret
  | parseJSON json =>
    refine attends_nonNull fun json => attends_result ?_
    refine attends_bind (attends_getStringUTFChars _ json) fun json => ?_
    refine attends_checked (fun _ => rfl) (fun _ => rfl) fun v => ?_
    exact attends_marshals (marshals_toJavaObject steady_plain _ _ v true)
  | call func thisObj args fuel => exact attends_result (attends_call _)
  | runGC => exact attends_unchecked (issues_unitResult (issues_enter rfl)) fun e _ => by cases e <;> rfl
  | getGlobalObject =>
    have issues := issues_javaResult (issues_getGlobalObject steady_plain (.ofThread t))
    exact attends_unchecked issues fun e _ => by cases e <;> rfl
  | setProperty objValue name value =>
    refine attends_nonNull fun name => ?_
    have issues := issues_unitResult
      (issues_setProperty steady_plain steady_store (.ofThread t) objValue name value)
    exact attends_unchecked issues fun e _ => by cases e <;> rfl
  | get objValue index =>
    have issues := issues_javaResult (issues_get steady_plain (.ofThread t) objValue index)
    exact attends_unchecked issues fun e _ => by cases e <;> rfl
  | set objValue value index =>
    have issues := issues_unitResult
      (issues_set steady_plain steady_store (.ofThread t) objValue value index)
    exact attends_unchecked issues fun e _ => by cases e <;> rfl
  | freeValue objValue =>
    have issues := issues_unitResult (issues_freeValueNative steady_plain objValue)
    exact attends_unchecked issues fun e _ => by cases e <;> rfl

end Attention

section Failures
variable {op : NativeOp} {w s u : World} {h before during : BridgeHistory} {told : Thrown} {b : Bool}

theorem setsException_untaken {item : BridgeItem} (other : takesException item = false) :
    setsException item = callsEngine item := by
  cases item with
  | call e a s => rfl
  | prim c a s => cases c <;> first | rfl | cases other

theorem report_calls (report : ReportRun s told during b u) : ∃ item rest, during = item :: rest ∧
    (∀ item ∈ rest, takesException item = false) ∧ rest.any callsEngine = true := by
  obtain ⟨v, rest, rfl, once⟩ := report.first
  refine ⟨_, rest, rfl, once, ?_⟩
  have asks : ∀ i ∈ rest.filterMap inquiry?, (∃ v b, i = .isError v b) ∨ rest.any callsEngine = true := by
    intro i asked
    obtain ⟨item, member, same⟩ := List.mem_filterMap.1 asked
    cases item with
    | call e a s => exact Or.inr (List.any_eq_true.2 ⟨_, member, rfl⟩)
    | prim c a s =>
      left
      cases c with
      | isError v =>
        cases a with
        | bool b => exact ⟨v, b, (Option.some.inj same).symm⟩
        | _ => cases same
      | _ => cases same
  have asked : rest.filterMap inquiry? = told.inquiries s.exception := report.asked
  rw [asked] at asks
  unfold Thrown.inquiries at asks
  cases isError : told.isError with
  | true =>
    rw [isError] at asks
    rcases asks (.property s.exception (ascii "message") told.message) (by simp) with ⟨_, _, other⟩ | calls
    · cases other
    · exact calls
  | false =>
    rw [isError] at asks
    rcases asks (.text s.exception told.text) (by simp) with ⟨_, _, other⟩ | calls
    · cases other
    · exact calls

theorem dying_ends {t : ThreadId} {out : Outcome Answer} (dies : op.dies = true)
    (run : Exec bridge.meaning (op.program t) w h out u) : h = [] ∧ out = .crashed := by
  cases op with
  | execute bytecode fuel =>
    cases bytecode with
    | none =>
      obtain ⟨rfl, rfl, -⟩ := exec_crash run
      exact ⟨rfl, rfl⟩
    | some bytecode => cases dies
  | _ => cases dies

theorem afterCheck_untaken (attended : Attended op h) (untaken : h.any takesException = false) :
    op.exceptionAfterCheck w h = exceptionLeft w h := by
  have none : h.any op.looksFor = false := by
    unfold Attended at attended
    rwa [beforeTaking_all untaken, untaken] at attended
  have all : (h.dropWhile fun item => !op.looksFor item) = [] := by
    rw [List.dropWhile_eq_nil_iff]
    simpa using none
  unfold NativeOp.exceptionAfterCheck exceptionLeft
  rw [all]
  refine leftBy_congr fun item member => (setsException_untaken ?_).symm
  exact Bool.eq_false_iff.2 (List.any_eq_false.1 untaken item member)

theorem afterCheck_taken (attended : Attended op (before ++ during))
    (silent : before.any takesException = false) (report : ReportRun s told during b u) :
    op.exceptionAfterCheck w (before ++ during) = exceptionLeft w (before ++ during) := by
  obtain ⟨item, rest, rfl, once, calls⟩ := report_calls report
  have finds : before.any op.looksFor = true := by
    unfold Attended at attended
    rw [beforeTaking_append silent report] at attended
    rw [attended]
    obtain ⟨v, later, same, -⟩ := report.first
    cases same
    simp [takesException]
  obtain ⟨found, member, looked⟩ := List.any_eq_true.1 finds
  have some : (before.dropWhile fun item => !op.looksFor item) ≠ [] := by
    intro none
    have unlooked := (List.dropWhile_eq_nil_iff.1 none) found member
    rw [looked] at unlooked
    cases unlooked
  have sets : rest.any setsException = true := by
    obtain ⟨call, later, isOne⟩ := List.any_eq_true.1 calls
    exact List.any_eq_true.2 ⟨call, later, (setsException_untaken (once call later)).trans isOne⟩
  have left : exceptionLeft w (before ++ item :: rest) = leftBy callsEngine World.exception .null rest := by
    have split : before ++ item :: rest = (before ++ [item]) ++ rest := by simp
    unfold exceptionLeft
    rw [split, leftBy_any (y := .null) sets]
    exact leftBy_congr fun item later => setsException_untaken (once item later)
  rw [left]
  unfold NativeOp.exceptionAfterCheck
  rw [List.dropWhile_append]
  cases dropped : before.dropWhile fun item => !op.looksFor item with
  | nil => exact absurd dropped some
  | cons first between =>
    have split : between ++ item :: rest = (between ++ [item]) ++ rest := by simp
    simp only [List.isEmpty_cons, Bool.false_eq_true, if_false, List.cons_append]
    rw [split]
    exact leftBy_any calls

/-- What an operation that returns leaves: of the JS exception what comes after its check, and a Java
    exception where it has found a failure or Java code has left one. -/
theorem returned_left {w : World} (clean : w.unhandledRejections = []) {op : NativeOp}
    (made : op.isConstructor = false) (lives : op.dies = false) {t : ThreadId} {trace : BridgeHistory}
    {a : Answer} {u : World} (run : Exec bridge.meaning (op.program t) w trace (.returned a) u) :
    u.exception = op.exceptionAfterCheck w trace ∧
      (u.javaException.isSome = true ↔
        trace.any op.looksFor = true ∨ (carriedException w trace).isSome = true) := by
  have attended := attends_program made t clean run
  obtain ⟨φ, -, path, -⟩ := exec_course made clean run
  have slot : u.exception = exceptionLeft w trace :=
    path_leftBy (fun _ _ _ => exception_alone) path
  rcases exec_reports made run with untaken | ⟨s, before, during, told, rfl, chain, silent, report⟩
  · have silent : ∀ env text b v, .prim (.throw env (.quickJS text)) b v ∉ trace := by
      intro env text b v throws
      cases untaken.symm.trans (path_throws path throws)
    have none : trace.any op.looksFor = false := by
      unfold Attended at attended
      rwa [beforeTaking_all untaken, untaken] at attended
    rw [afterCheck_untaken attended untaken, chain_carried (exec_chain run) silent, none]
    exact ⟨slot, by simp⟩
  · rw [afterCheck_taken attended silent report, report_left path chain silent report]
    refine ⟨slot, iff_of_true rfl (Or.inl ?_)⟩
    unfold Attended at attended
    rw [beforeTaking_append silent report] at attended
    obtain ⟨v, rest, rfl, -⟩ := report.first
    rw [List.any_append, attended]
    simp [takesException]

/-- An operation loses no failure and leaves none behind exactly if it looks at the call that
    fails, or Java code has left an exception, every text can be made, and what is called after
    the failure it has found leaves no JS exception. -/
theorem failures_surface_iff {globalObj : Addr} {jvm : List UInt8 → JavaString}
    {labels : List BridgeLabel} {c : BridgeConfig}
    (ran : bridge.run labels (initial globalObj jvm) = some c) {op : NativeOp}
    (made : op.isConstructor = false) {t : ThreadId} {trace : BridgeHistory}
    {out : Outcome Answer} {u : World}
    (run : Exec bridge.meaning (op.program t) c.state trace out u) :
    FailuresSurface trace out u ↔ Surfaced op c.state trace := by
  have clean := reached_rejections ran
  cases dies : op.dies with
  | true =>
    obtain ⟨rfl, rfl⟩ : trace = [] ∧ out = .crashed := dying_ends dies run
    apply iff_of_true
    · refine ⟨fun some => absurd some Bool.false_ne_true, ?_⟩
      rintro ⟨a, impossible⟩
      cases impossible
    · refine ⟨fun some => absurd some Bool.false_ne_true, fun lives => ?_⟩
      cases dies.symm.trans lives
  | false =>
    have ends : crashes out = trace.any textless := dies_program made dies t _ _ _ _ run
    cases out with
    | crashed =>
      -- nothing is promised of a process that died, but that no call failed in it
      replace ends : true = trace.any textless := ends
      constructor
      · intro surface
        refine ⟨fun some => ?_, fun _ texts => ?_⟩
        · obtain ⟨⟨a, impossible⟩, -⟩ := surface.1 some
          cases impossible
        · cases ends.trans texts
      · intro surfaced
        refine ⟨fun some => ?_, ?_⟩
        · cases ends.trans (surfaced.1 some).1
        · rintro ⟨a, impossible⟩
          cases impossible
    | returned a =>
      replace ends : trace.any textless = false := ends.symm
      obtain ⟨after, java⟩ := returned_left clean made dies run
      constructor
      · intro surface
        refine ⟨fun some => ⟨ends, java.1 (surface.1 some).2⟩, fun _ _ => ?_⟩
        exact after.symm.trans (surface.2 ⟨a, rfl⟩)
      · intro surfaced
        refine ⟨fun some => ⟨⟨a, rfl⟩, java.2 (surfaced.1 some).2⟩, fun _ => ?_⟩
        exact after.trans (surfaced.2 dies ends)

/-- The getter throws a number, which is reported. -/
theorem getter_failure_reported : ∃ (c : BridgeConfig) (trace : BridgeHistory) (a : Answer)
    (u : World), bridge.run (entersOnGlobal fun o => .getProperty (some o) (some []))
      (initial 1 fun _ => []) = some c ∧
    Exec bridge.meaning ((NativeOp.getProperty 1 (some [])).program 0) c.state trace
      (.returned a) u ∧
    (FailuresSurface trace (.returned a) u ↔ Surfaced (.getProperty 1 (some [])) c.state trace) := by
  have body : ∃ c, bridge.run (entersOnGlobal fun o => .getProperty (some o) (some []))
      (initial 1 fun _ => []) = some c ∧
      Can bridge.meaning ((NativeOp.getProperty 1 (some [])).program 0) [] c.state
        fun _ _ _ => True := by
    refine ⟨_, rfl, ?_⟩
    refine can_prim rfl ?_
    refine can_enter (a := .value .exception)
      ⟨_, _, [.event (.engine (.throwValue (.int 5)))], rfl, rfl, rfl⟩ ?_
    -- the exception is taken, its text made, and the Java exception thrown
    refine can_prim rfl (can_prim rfl ?_)
    refine can_enter (a := .text (some [0x35])) ⟨_, _, [], rfl, rfl, rfl⟩ ?_
    refine can_prim rfl (can_prim rfl ?_)
    exact can_ret trivial
  obtain ⟨c, ran, a, trace, u, run, -⟩ := body
  exact ⟨c, trace, a, u, ran, run, failures_surface_iff ran rfl run⟩

/-- A setter throws: the property is not set, Java learns nothing of it, and the JS exception
    stays pending. -/
theorem setter_failure_lost : ¬ ∀ (globalObj : Addr) (jvm : List UInt8 → JavaString)
    (labels : List BridgeLabel) (c : BridgeConfig) (op : NativeOp) (t : ThreadId)
    (trace : BridgeHistory) (out : Outcome Answer) (u : World),
    bridge.run labels (initial globalObj jvm) = some c → op.isConstructor = false →
    c.stack = [.caller (.native t)] →
    Exec bridge.meaning (op.program t) c.state trace out u → FailuresSurface trace out u := by
  intro complete
  have body : ∃ c, bridge.run (entersOnGlobal fun o => .setProperty (some o) (some []) none)
      (initial 1 fun _ => []) = some c ∧ c.stack = [.caller (.native 0)] ∧
      Can bridge.meaning ((NativeOp.setProperty 1 (some []) none).program 0) [] c.state
        fun _ trace u => trace.any failed = true ∧ u.javaException.isSome = false := by
    refine ⟨_, rfl, rfl, ?_⟩
    refine can_prim rfl (can_prim rfl ?_)
    refine can_enter (a := .int (-1))
      ⟨_, _, [.event (.engine (.throwValue (.int 5)))], rfl, rfl, rfl⟩ ?_
    exact can_ret ⟨rfl, rfl⟩
  obtain ⟨c, ran, outermost, a, trace, u, run, some, silent⟩ := body
  have surface := complete 1 _ _ c _ 0 trace _ u ran rfl outermost run
  cases silent.symm.trans (surface.1 some).2

end Failures

end QuickJSBridge
