import QuickJSBridge.ReceiverValidity

/- The course every native method of a finished wrapper takes: JS code runs, the job loop may
   settle the queue, and a JS exception may be taken and reported, after which nothing
   runs any more. -/
namespace QuickJSBridge
open HostProgram ReentrantMachine

abbrev BridgeItem := Item World Prim ForeignCall Answer
abbrev BridgeHistory := History World Prim ForeignCall Answer

inductive Phase where
  /-- JS code of the operation runs, jobs included. -/
  | running
  /-- A job is off the queue and has not been started. -/
  | jobTaken
  /-- The job loop has found the queue empty. -/
  | settled
  /-- The JS exception has been taken, and its text is being put together. -/
  | reporting
  /-- A Java exception is pending for it. -/
  | reported
  deriving DecidableEq

def Phase.exits : Phase → Bool
  | .running | .settled | .reported => true
  | _ => false

def Phase.allowsJS : Phase → Bool
  | .running | .reporting => true
  | _ => false

def Phase.takes : Phase → Bool
  | .running | .settled => true
  | _ => false

def Kind.steady : Kind → Bool
  | .plain | .slot | .store | .put => true
  | _ => false

def Steady (k : Kind) : Prop := k.steady = true

def beginsWithText : List Piece → Bool
  | .js _ :: _ => true
  | _ => false

theorem begins_append {text more : List Piece} (begins : beginsWithText text = true) :
    beginsWithText (text ++ more) = true := by
  cases text with
  | nil => cases begins
  | cons piece text => cases piece <;> exact begins

inductive Moves : Phase → BridgeItem → Phase → Prop where
  | steady (φ : Phase) {c : Prim} {a : Answer} {w : World} (may : Steady c.kind) :
      Moves φ (.prim c a w) φ
  | quiet (φ : Phase) {e : EngineCall} {a : Answer} {w : World} (noJS : e.runsJS = false) :
      Moves φ (.call (.engine e) a w) φ
  | runsJS {φ : Phase} {e : EngineCall} {a : Answer} {w : World} (may : φ.allowsJS = true)
      (other : e.isJob = false) : Moves φ (.call (.engine e) a w) φ
  | moreJobs {w : World} : Moves .running (.prim .jobListEmpty (.bool false) w) .running
  | noJobs {w : World} : Moves .running (.prim .jobListEmpty (.bool true) w) .settled
  | takeJob {a : Answer} {w : World} : Moves .running (.prim .takeJob a w) .jobTaken
  | runJob {a : Answer} {w : World} : Moves .jobTaken (.call (.engine .jobFunc) a w) .running
  | getException {φ : Phase} {a : Answer} {w : World} (may : φ.takes = true) :
      Moves φ (.prim .getException a w) .reporting
  | alreadyPending {env : JNIEnv} {w : World} :
      Moves .reporting (.prim (.exceptionCheck env) (.bool true) w) .reported
  | throw {env : JNIEnv} {text : List Piece} {a : Answer} {w : World}
      (begins : beginsWithText text = true) :
      Moves .reporting (.prim (.throw env (.quickJS text)) a w) .reported

section Courses
variable (w : World)

def At (φ : Phase) (h : BridgeHistory) (s : World) : Prop :=
  Path bridge.meaning Moves .running w h φ s ∧ s.unhandledRejections = []

def Ended (h : BridgeHistory) (s : World) : Prop := ∃ φ, φ.exits = true ∧ At w φ h s

variable {w} {φ : Phase} {h : BridgeHistory} {s : World}

theorem at_prim {φ' : Phase} {c : Prim} {a : Answer} {s' : World} (now : At w φ h s)
    (acts : exec c s = some (a, s')) (may : Moves φ (.prim c a s') φ') :
    At w φ' (h ++ [.prim c a s']) s' :=
  ⟨.snoc now.1 acts may, exec_rejections now.2 acts⟩

theorem at_call {φ' : Phase} {e : ForeignCall} {a : Answer} {s' : World} (now : At w φ h s)
    (answers : bridge.Reply e s a s') (may : Moves φ (.call e a s') φ') :
    At w φ' (h ++ [.call e a s']) s' :=
  ⟨.snoc now.1 answers may, reply_rejections answers now.2⟩

theorem ended (exits : φ.exits = true) (now : At w φ h s) : Ended w h s := ⟨φ, exits, now⟩

theorem leads_calm {R : Type} {p : Program R} (calm : Calm Steady p) :
    Leads bridge.meaning (At w φ) p fun _ => At w φ := by
  apply leads_within calm
  · intro c h s a s' may now acts
    exact at_prim now acts (.steady φ may)
  · rintro e h s a s' ⟨call, rfl, noJS⟩ now answers
    exact at_call now answers (.quiet φ noJS)

theorem leads_calm_ended {R : Type} {p : Program R} (calm : Calm Steady p) :
    Leads bridge.meaning (Ended w) p fun _ => Ended w := by
  rintro h s trace r t ⟨φ, exits, now⟩ run
  exact ⟨φ, exits, leads_calm calm h s trace r t now run⟩

theorem leads_issues {R : Type} {p : Program R} (issues : Issues Steady p)
    (may : φ.allowsJS = true) : Leads bridge.meaning (At w φ) p fun _ => At w φ := by
  apply leads_within issues
  · intro c h s a s' steady now acts
    exact at_prim now acts (.steady φ steady)
  · rintro e h s a s' ⟨engine, guarded⟩ now answers
    cases e with
    | java f args => cases engine
    | engine e =>
      have other : e.isJob = false := by
        cases e with
        | jobFunc => cases guarded rfl
        | _ => rfl
      exact at_call now answers (.runsJS may other)

end Courses

section Reports
variable {w : World} {φ : Phase}

theorem steady_plain : Steady .plain := rfl
theorem steady_store : Steady .store := rfl

def Texted (w : World) (text : List Piece) (h : BridgeHistory) (s : World) : Prop :=
  At w .reporting h s ∧ beginsWithText text = true

theorem leads_appendText (v : JSValue) :
    Leads bridge.meaning (At w .reporting) (appendText v) (Texted w) := by
  refine leads_bind (leads_issues (issues_enterText rfl) rfl) ?_
  intro text
  cases text with
  | none => exact leads_crash
  | some bytes => exact leads_ret fun h s now => ⟨now, rfl⟩

theorem leads_getJSErrorStr (error : JSValue) :
    Leads bridge.meaning (At w .reporting) (getJSErrorStr error) (Texted w) := by
  refine leads_bind (leads_issues (issues_ask rfl) rfl) ?_
  intro isError
  split
  · refine leads_bind (leads_issues (issues_of_asks steady_plain (asks_tryToTriggerOnError error)) rfl) ?_
    intro _
    refine leads_bind (leads_issues (issues_enterValue rfl) rfl) ?_
    intro message
    refine leads_bind (leads_appendText message) ?_
    intro text h s trace r t begun run
    -- what follows only adds to a text that has begun
    have rest : Leads bridge.meaning (At w .reporting)
        ((freeValue message).bind fun _ => (enterValue (.getPropertyStr error (ascii "stack"))).bind
          fun val => (appendStack val).bind fun stack => (freeValue val).bind fun _ =>
            .ret (text ++ stack)) fun r h s => At w .reporting h s ∧ ∃ more, r = text ++ more := by
      refine leads_bind (leads_issues (issues_freeValue message) rfl) ?_
      intro _
      refine leads_bind (leads_issues (issues_enterValue rfl) rfl) ?_
      intro val
      refine leads_bind (leads_issues (issues_of_asks steady_plain (asks_appendStack val)) rfl) ?_
      intro stack
      refine leads_bind (leads_issues (issues_freeValue val) rfl) ?_
      intro _
      exact leads_ret fun h s now => ⟨now, stack, rfl⟩
    obtain ⟨now, more, rfl⟩ := rest h s trace r t begun.1 run
    exact ⟨now, begins_append begun.2⟩
  · exact leads_appendText error

theorem leads_getException (may : φ.takes = true) :
    Leads bridge.meaning (At w φ) (askValue .getException) fun _ => At w .reporting := by
  apply leads_prim
  · intro h s a s' now acts
    exact at_prim now acts (.getException may)
  · exact fun a => leads_ret fun h s now => now

theorem leads_getPendingErrorStr (may : φ.takes = true) :
    Leads bridge.meaning (At w φ) getPendingErrorStr (Texted w) := by
  refine leads_bind (leads_getException may) ?_
  intro error
  refine leads_bind (leads_getJSErrorStr error) ?_
  intro text h s trace r t begun run
  have freed : Leads bridge.meaning (At w .reporting) ((freeValue error).bind fun _ => .ret text)
      fun r h s => At w .reporting h s ∧ r = text := by
    refine leads_bind (leads_issues (issues_freeValue error) rfl) ?_
    intro _
    exact leads_ret fun h s now => ⟨now, rfl⟩
  obtain ⟨now, rfl⟩ := freed h s trace r t begun.1 run
  exact ⟨now, begun.2⟩

theorem leads_exceptionCheck (env : JNIEnv) (text : List Piece) :
    Leads bridge.meaning (Texted w text) (ask (.exceptionCheck env)) fun pending h s =>
      if pending then At w .reported h s else Texted w text h s := by
  intro h s trace pending t begun run
  obtain ⟨a, s', rest, acts, done, rfl⟩ := exec_prim run
  obtain ⟨rfl, same, rfl⟩ := exec_ret done
  cases same
  cases acts
  cases held : s.javaException.isSome with
  | true =>
    refine at_prim begun.1 ?_ .alreadyPending
    simp [exec, held]
  | false =>
    refine ⟨at_prim begun.1 ?_ (.steady _ rfl), begun.2⟩
    simp [exec, held]

theorem leads_throwJSException (env : JNIEnv) (text : List Piece) :
    Leads bridge.meaning (Texted w text) (throwJSException env text) fun _ => At w .reported := by
  refine leads_bind (leads_exceptionCheck env text) ?_
  intro pending
  cases pending with
  | true => exact leads_ret fun h s now => now
  | false =>
    apply leads_prim
    · intro h s a s' begun acts
      exact at_prim begun.1 acts (.throw begun.2)
    · exact fun _ => leads_ret fun h s now => now

theorem leads_throwPendingJSException (env : JNIEnv) (may : φ.takes = true) :
    Leads bridge.meaning (At w φ) (throwPendingJSException env) fun _ => At w .reported :=
  leads_bind (leads_getPendingErrorStr may) fun text => leads_throwJSException env text

end Reports

section Loop
variable {w : World}

def Looked (w : World) (empty : Bool) (h : BridgeHistory) (s : World) : Prop :=
  if empty then At w .settled h s else At w .running h s

theorem leads_jobListEmpty :
    Leads bridge.meaning (At w .running) (ask .jobListEmpty) (Looked w) := by
  intro h s trace empty t now run
  obtain ⟨a, s', rest, acts, done, rfl⟩ := exec_prim run
  obtain ⟨rfl, same, rfl⟩ := exec_ret done
  cases same
  cases acts
  cases empty : decide (s.jobs = 0) with
  | true =>
    refine at_prim now ?_ .noJobs
    simp [exec, empty]
  | false =>
    refine at_prim now ?_ .moreJobs
    simp [exec, empty]

theorem leads_takeJob :
    Leads bridge.meaning (At w .running) (act .takeJob) fun _ => At w .jobTaken := by
  apply leads_prim
  · intro h s a s' now acts
    exact at_prim now acts .takeJob
  · exact fun _ => leads_ret fun h s now => now

theorem leads_jobFunc :
    Leads bridge.meaning (At w .jobTaken) (enterValue .jobFunc) fun _ => At w .running := by
  apply leads_enter
  · intro h s a s' now answers
    exact at_call now answers .runJob
  · exact fun _ => leads_ret fun h s now => now

theorem leads_executePendingJob : Leads bridge.meaning (At w .running) executePendingJob
    fun err => Looked w (err = 0) := by
  refine leads_bind leads_jobListEmpty ?_
  intro empty
  cases empty with
  | true => exact leads_ret fun h s now => now
  | false =>
    refine leads_bind leads_takeJob ?_
    intro _
    refine leads_bind leads_jobFunc ?_
    intro res
    refine leads_bind (leads_issues (issues_freeValue res) rfl) ?_
    intro _
    apply leads_ret
    intro h s now
    split <;> exact now

theorem leads_pendingJobRounds (env : JNIEnv) (fuel : Nat) :
    Leads bridge.meaning (At w .running) (pendingJobRounds env fuel) fun finished =>
      if finished then At w .settled else At w .reported := by
  induction fuel with
  | zero => exact leads_spin
  | succ fuel ih =>
    refine leads_bind leads_executePendingJob ?_
    intro err
    by_cases empty : err = 0
    · subst empty
      exact leads_ret fun h s now => now
    · have running : ∀ h s, Looked w (err = 0) h s → At w .running h s := by
        intro h s looked
        simpa [Looked, empty] using looked
      split
      · exact leads_mono ih running fun _ _ _ now => now
      · split
        · refine leads_mono (leads_bind (leads_getPendingErrorStr rfl) fun error =>
            leads_bind (leads_throwJSException env error) fun _ => ?_) running fun _ _ _ now => now
          exact leads_ret fun h s now => now
        next more failed =>
          exact absurd (Int32.le_antisymm (Int32.not_lt.1 more) (Int32.not_lt.1 failed)) empty

theorem leads_throwIfUnhandledRejections (fuel : Nat) :
    Leads bridge.meaning (At w .settled) (throwIfUnhandledRejections fuel) fun thrown h s =>
      thrown = false ∧ At w .settled h s := by
  have empty : Leads bridge.meaning (At w .settled) (ask .rejectionsEmpty) fun empty h s =>
      empty = true ∧ At w .settled h s := by
    intro h s trace empty t now run
    obtain ⟨a, s', rest, acts, done, rfl⟩ := exec_prim run
    obtain ⟨rfl, same, rfl⟩ := exec_ret done
    cases same
    have left := at_prim (c := .rejectionsEmpty) now acts (.steady _ rfl)
    cases acts
    refine ⟨?_, left⟩
    change s.unhandledRejections.isEmpty = true
    rw [now.2]
    rfl
  have texts : Leads bridge.meaning (At w .settled) (rejectionsText fuel []) fun error h s =>
      error = [] ∧ At w .settled h s := by
    cases fuel with
    | zero => exact leads_spin
    | succ fuel =>
      refine leads_bind empty ?_
      intro empty
      cases empty with
      | true => exact leads_ret fun h s now => ⟨rfl, now.2⟩
      | false =>
        rintro h s trace r t ⟨impossible, -⟩
        cases impossible
  refine leads_bind texts ?_
  intro error
  rintro h s trace r t ⟨rfl, now⟩ run
  obtain ⟨rfl, same, rfl⟩ := exec_ret run
  cases same
  rw [List.append_nil]
  exact ⟨rfl, now⟩

theorem leads_executePendingJobLoop (env : JNIEnv) (fuel : Nat) :
    Leads bridge.meaning (At w .running) (executePendingJobLoop env fuel) fun finished =>
      if finished then At w .settled else Ended w := by
  refine leads_bind (leads_issues (issues_ask rfl) rfl) ?_
  intro pending
  cases pending with
  | true => exact leads_ret fun h s now => ended rfl now
  | false =>
    refine leads_bind (leads_pendingJobRounds env fuel) ?_
    intro finished
    cases finished with
    | false => exact leads_ret fun h s now => ended rfl now
    | true =>
      refine leads_bind (leads_calm ⟨rfl, fun _ => trivial⟩) ?_
      intro _
      refine leads_bind (leads_throwIfUnhandledRejections fuel) ?_
      intro thrown
      apply leads_ret
      rintro h s ⟨rfl, now⟩
      exact now

end Loop

section Operations
variable {w : World} {R : Type}

theorem leads_still {p : Program R} (issues : Issues Steady p) :
    Leads bridge.meaning (At w .running) p fun _ => Ended w :=
  leads_mono (leads_issues issues rfl) (fun _ _ now => now) fun _ _ _ now => ended rfl now

theorem leads_reported (env : JNIEnv) (r : R) {φ : Phase} (may : φ.takes = true) :
    Leads bridge.meaning (At w φ) ((throwPendingJSException env).bind fun _ => .ret r)
      fun _ => Ended w :=
  leads_bind (leads_throwPendingJSException env may) fun _ => leads_ret fun _ _ now => ended rfl now

theorem leads_looped (env : JNIEnv) (fuel : Nat) {value : JSValue} {r : R} {result : Program R}
    (after : Leads bridge.meaning (At w .settled) result fun _ => Ended w) :
    Leads bridge.meaning (At w .running)
      ((executePendingJobLoop env fuel).bind fun finished =>
        if finished then result else (freeValue value).bind fun _ => .ret r) fun _ => Ended w := by
  refine leads_bind (leads_executePendingJobLoop env fuel) ?_
  intro finished
  cases finished with
  | true => exact after
  | false => exact leads_calm_ended (Prog.within_bind (calm_freeValue value) fun _ => trivial)

theorem leads_settled {p : Program R} (calm : Calm Steady p) :
    Leads bridge.meaning (At w .settled) p fun _ => Ended w :=
  leads_mono (leads_calm calm) (fun _ _ now => now) fun _ _ _ now => ended rfl now

theorem leads_evaluate (env : JNIEnv) (script fileName : JavaString) (fuel : Nat) :
    Leads bridge.meaning (At w .running) (Wrapper.evaluate env script fileName fuel)
      fun _ => Ended w := by
  refine leads_bind (leads_issues (issues_getStringUTFChars steady_plain env script) rfl) ?_
  intro script
  refine leads_bind (leads_issues (issues_getStringUTFChars steady_plain env fileName) rfl) ?_
  intro fileName
  refine leads_bind (leads_issues (issues_enterValue rfl) rfl) ?_
  intro result
  split
  · exact leads_reported env none rfl
  · exact leads_looped env fuel (leads_settled (calm_globalResult steady_plain env result))

theorem leads_evaluateModule (env : JNIEnv) (script fileName : JavaString) (fuel : Nat) :
    Leads bridge.meaning (At w .running) (Wrapper.evaluateModule env script fileName fuel)
      fun _ => Ended w := by
  refine leads_bind (leads_issues (issues_getStringUTFChars steady_plain env script) rfl) ?_
  intro script
  refine leads_bind (leads_issues (issues_getStringUTFChars steady_plain env fileName) rfl) ?_
  intro fileName
  refine leads_bind (leads_issues (issues_enterValue rfl) rfl) ?_
  intro result
  split
  · exact leads_reported env none rfl
  · exact leads_looped env fuel (leads_settled (calm_globalResult steady_plain env result))

theorem leads_call (env : JNIEnv) (func thisObj : Nat) (args : List (Option JavaObject))
    (fuel : Nat) : Leads bridge.meaning (At w .running) (Wrapper.call env func thisObj args fuel)
      fun _ => Ended w := by
  refine leads_bind (leads_issues (issues_callArguments steady_plain steady_store env args [] []) rfl) ?_
  intro converted
  cases converted with
  | none => exact leads_ret fun _ _ now => ended rfl now
  | some converted =>
    refine leads_bind (leads_issues (issues_enterValue rfl) rfl) ?_
    intro ret
    split
    · exact leads_reported env none rfl
    · refine leads_bind (leads_issues (issues_freeValues _) rfl) ?_
      intro _
      exact leads_looped env fuel (leads_settled (calm_toJavaObject steady_plain env _ ret true))

theorem leads_execute (env : JNIEnv) (byteCode : List UInt8) (fuel : Nat) :
    Leads bridge.meaning (At w .running) (Wrapper.execute env byteCode fuel) fun _ => Ended w := by
  refine leads_bind (leads_issues (issues_enterValue rfl) rfl) ?_
  intro obj
  split
  · exact leads_reported env none rfl
  · refine leads_bind (leads_issues (issues_enterInt rfl) rfl) ?_
    intro status
    split
    · exact leads_ret fun _ _ now => ended rfl now
    · refine leads_bind (leads_issues (issues_enterValue rfl) rfl) ?_
      intro val
      refine leads_looped env fuel ?_
      split
      · exact leads_reported env none rfl
      · exact leads_settled (calm_toJavaObject steady_plain env obj val true)

theorem leads_getProperty (env : JNIEnv) (objValue : Nat) (name : JavaString) :
    Leads bridge.meaning (At w .running) (Wrapper.getProperty env objValue name)
      fun _ => Ended w := by
  refine leads_bind (leads_issues (issues_getStringUTFChars steady_plain env name) rfl) ?_
  intro propsName
  refine leads_bind (leads_issues (issues_enterValue rfl) rfl) ?_
  intro propsValue
  split
  · exact leads_reported env none rfl
  · exact leads_still (issues_toJavaObject steady_plain env _ propsValue true)

theorem leads_length (env : JNIEnv) (objValue : Nat) :
    Leads bridge.meaning (At w .running) (Wrapper.length env objValue) fun _ => Ended w := by
  refine leads_bind (leads_issues (issues_enterValue rfl) rfl) ?_
  intro length
  split
  · exact leads_reported env (-1) rfl
  · exact leads_still (issues_bind (issues_freeValue length) fun _ => trivial)

theorem leads_jsonStringify (env : JNIEnv) (objValue : Nat) :
    Leads bridge.meaning (At w .running) (Wrapper.jsonStringify env objValue) fun _ => Ended w := by
  refine leads_bind (leads_issues (issues_enterValue rfl) rfl) ?_
  intro obj
  split
  · exact leads_reported env none rfl
  · apply leads_still
    apply issues_bind (issues_enterText rfl)
    intro result
    exact issues_bind (issues_freeValue obj) fun _ => issues_newStringUTF steady_plain env result

theorem leads_parseJSON (env : JNIEnv) (json : JavaString) :
    Leads bridge.meaning (At w .running) (Wrapper.parseJSON env json) fun _ => Ended w := by
  refine leads_bind (leads_issues (issues_getStringUTFChars steady_plain env json) rfl) ?_
  intro json
  refine leads_bind (leads_issues (issues_enterValue rfl) rfl) ?_
  intro jsonObj
  split
  · exact leads_reported env none rfl
  · exact leads_still (issues_toJavaObject steady_plain env _ jsonObj true)

theorem leads_compile (env : JNIEnv) (source fileName : JavaString) (isModule : Bool) :
    Leads bridge.meaning (At w .running) (Wrapper.compile env source fileName isModule)
      fun _ => Ended w := by
  refine leads_bind (leads_issues (issues_getStringUTFChars steady_plain env source) rfl) ?_
  intro sourceCode
  refine leads_bind (leads_issues (issues_getStringUTFChars steady_plain env fileName) rfl) ?_
  intro fileName
  refine leads_bind (leads_issues (issues_enterValue rfl) rfl) ?_
  intro compiled
  split
  · exact leads_reported env none rfl
  · refine leads_bind (leads_issues (issues_enterText rfl) rfl) ?_
    intro buffer
    have written : Leads bridge.meaning (At w .running)
        ((throwPendingJSException env).when (buffer.filter (!·.isEmpty)).isNone)
        fun _ => Ended w := by
      cases (buffer.filter (!·.isEmpty)).isNone with
      | false => exact leads_ret fun _ _ now => ended rfl now
      | true =>
        exact leads_mono (leads_throwPendingJSException env rfl) (fun _ _ now => now)
          fun _ _ _ now => ended rfl now
    refine leads_bind written ?_
    intro _
    exact leads_calm_ended (Prog.within_bind (calm_freeValue compiled) fun _ => trivial)

theorem leads_nonNull {env : JNIEnv} {argument : Option JavaString} {message : String}
    {p : JavaString → Program Answer}
    (given : ∀ s, Leads bridge.meaning (At w .running) (p s) fun _ => Ended w) :
    Leads bridge.meaning (At w .running) (nonNull env argument message p) fun _ => Ended w := by
  cases argument with
  | none => exact leads_still (issues_bind (issues_act rfl) fun _ => trivial)
  | some s => exact given s

theorem leads_result {p : Program R} {f : R → Answer}
    (leads : Leads bridge.meaning (At w .running) p fun _ => Ended w) :
    Leads bridge.meaning (At w .running) (p.bind fun r => .ret (f r)) fun _ => Ended w :=
  leads_bind leads fun _ => leads_ret fun _ _ now => now

theorem leads_program {op : NativeOp} (made : op.isConstructor = false) (t : ThreadId) :
    Leads bridge.meaning (At w .running) (op.program t) fun _ => Ended w := by
  cases op with
  | createContext => cases made
  | evaluate script fileName fuel =>
    exact leads_nonNull fun script => leads_nonNull fun fileName =>
      leads_result (leads_evaluate _ script fileName fuel)
  | evaluateModule script fileName fuel =>
    exact leads_nonNull fun script => leads_nonNull fun fileName =>
      leads_result (leads_evaluateModule _ script fileName fuel)
  | compile source fileName isModule =>
    exact leads_nonNull fun source => leads_nonNull fun fileName =>
      leads_result (leads_compile _ source fileName isModule)
  | execute bytecode fuel =>
    cases bytecode with
    | none => exact leads_crash
    | some bytecode => exact leads_result (leads_execute _ bytecode fuel)
  | getProperty objValue name =>
    exact leads_nonNull fun name => leads_result (leads_getProperty _ objValue name)
  | length objValue => exact leads_result (leads_length _ objValue)
  | call func thisObj args fuel => exact leads_result (leads_call _ func thisObj args fuel)
  | stringify objValue => exact leads_result (leads_jsonStringify _ objValue)
  | parseJSON json => exact leads_nonNull fun json => leads_result (leads_parseJSON _ json)
  | runGC => exact leads_still (issues_unitResult (issues_enter rfl))
  | getGlobalObject =>
    exact leads_still (issues_javaResult (issues_getGlobalObject steady_plain _))
  | setProperty objValue name value =>
    exact leads_nonNull fun name => leads_still
      (issues_unitResult (issues_setProperty steady_plain steady_store _ objValue name value))
  | get objValue index =>
    exact leads_still (issues_javaResult (issues_get steady_plain _ objValue index))
  | set objValue value index =>
    exact leads_still (issues_unitResult (issues_set steady_plain steady_store _ objValue value index))
  | freeValue objValue =>
    exact leads_still (issues_unitResult (issues_freeValueNative steady_plain objValue))

theorem exec_course {op : NativeOp} (made : op.isConstructor = false) {t : ThreadId}
    {trace : BridgeHistory} {a : Answer} {u : World} (rejections : w.unhandledRejections = [])
    (run : Exec bridge.meaning (op.program t) w trace (.returned a) u) : Ended w trace u := by
  have start : At w .running [] w := ⟨.nil, rejections⟩
  exact leads_exec (Q := fun _ => Ended w) (leads_program made t) start run

end Operations
end QuickJSBridge
