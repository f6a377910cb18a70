import QuickJSBridge.NumberMarshalling

/- What becomes of the reference to a result. An operation asks the engine for it, settles what
   else it has to do, and disposes of the value: it makes a Java object of it, or gives it up.
   Only the last part is told the value. -/
namespace QuickJSBridge
open HostProgram ReentrantMachine

structure Obtained where
  result : JSValue
  receiver : JSValue
  /-- Values made for the arguments that have to be freed. -/
  converted : List JSValue

namespace NativeOp

def returnsResult : NativeOp → Bool
  | .evaluate _ _ _ | .evaluateModule _ _ _ | .execute _ _ | .getProperty _ _ => true
  | .get _ _ | .call _ _ _ _ | .parseJSON _ => true
  | _ => false

def askingFor (env : JNIEnv) (argument : Option JavaString) (message : String)
    (p : JavaString → Program (Option Obtained)) : Program (Option Obtained) :=
  match argument with
  | none => do
    act (.throw env (.nullPointer message))
    return none
  | some s => p s

def askingEval (env : JNIEnv) (script fileName : Option JavaString) (flags : EvalFlags) :
    Program (Option Obtained) :=
  askingFor env script "Script cannot be null" fun script =>
  askingFor env fileName "File name cannot be null" fun fileName => do
    let script ← getStringUTFChars env script
    let fileName ← getStringUTFChars env fileName
    let result ← enterValue (.eval script fileName flags)
    return some ⟨result, .undefined, []⟩

def asking (t : ThreadId) : NativeOp → Program (Option Obtained)
  | .evaluate script fileName _ => askingEval (.ofThread t) script fileName ⟨false, false⟩
  | .evaluateModule script fileName _ => askingEval (.ofThread t) script fileName ⟨true, false⟩
  | .execute (some bytecode) _ => do
    let obj ← enterValue (.readObject bytecode)
    if obj.isException then
      throwPendingJSException (.ofThread t)
      return none
    else if (← enterInt (.resolveModule obj)) ≠ 0 then
      return none
    else
      let val ← enterValue (.evalFunction obj)
      return some ⟨val, obj, []⟩
  | .execute none _ => .crash
  | .getProperty objValue name =>
    askingFor (.ofThread t) name "Property Name cannot be null" fun name => do
      let propsName ← getStringUTFChars (.ofThread t) name
      let propsValue ← enterValue (.getPropertyStr (.object objValue) propsName)
      return some ⟨propsValue, .object objValue, []⟩
  | .get objValue index => do
    let child ← enterValue (.getPropertyUint32 (.object objValue) index.toUInt32)
    return some ⟨child, .object objValue, []⟩
  | .call func thisObj args _ => do
    match ← Wrapper.callArguments (.ofThread t) args [] [] with
    | none => return none
    | some (arguments, freeArguments) =>
      let jsObj := if thisObj = 0 then JSValue.undefined else .object thisObj
      let ret ← enterValue (.call (.object func) jsObj arguments)
      return some ⟨ret, jsObj, freeArguments⟩
  | .parseJSON json =>
    askingFor (.ofThread t) json "JSON cannot be null" fun json => do
      let json ← getStringUTFChars (.ofThread t) json
      let jsonObj ← enterValue (.parseJSON json)
      return some ⟨jsonObj, .undefined, []⟩
  | _ => .ret none

def jobFuel : NativeOp → Option Nat
  | .evaluate _ _ fuel | .evaluateModule _ _ fuel | .execute _ fuel | .call _ _ _ fuel => some fuel
  | _ => none

def settling (t : ThreadId) (op : NativeOp) (converted : List JSValue) : Program Bool := do
  Wrapper.freeValues converted
  match op.jobFuel with
  | some fuel => executePendingJobLoop (.ofThread t) fuel
  | none => return true

/-- `evaluate` and `evaluateModule` make the handle of a function for the global object. -/
def converting (t : ThreadId) (op : NativeOp) (o : Obtained) : Program (Option JavaObject) :=
  match op with
  | .evaluate _ _ _ | .evaluateModule _ _ _ => do
    let global ← askValue .getGlobalObject
    let jsObj ← toJavaObject (.ofThread t) global o.result true
    QuickJSBridge.freeValue global
    return jsObj
  | _ => toJavaObject (.ofThread t) o.receiver o.result true

def disposing (t : ThreadId) (op : NativeOp) (finished : Bool) (o : Obtained) :
    Program (Option JavaObject) :=
  if finished then op.converting t o
  else do
    QuickJSBridge.freeValue o.result
    return none

def handling (t : ThreadId) (op : NativeOp) (o : Obtained) : Program (Option JavaObject) :=
  match op with
  | .get _ _ => (op.settling t o.converted).bind fun finished => op.disposing t finished o
  | .execute _ _ => do
    let finished ← op.settling t o.converted
    if finished && o.result.isException then
      throwPendingJSException (.ofThread t)
      return none
    else op.disposing t finished o
  | _ =>
    if o.result.isException then do
      throwPendingJSException (.ofThread t)
      return none
    else (op.settling t o.converted).bind fun finished => op.disposing t finished o

end NativeOp

section Phases
variable {t : ThreadId} {w u : World} {h : BridgeHistory} {a : Answer}

def answering (asked : Program (Option Obtained)) (rest : Obtained → Program (Option JavaObject)) :
    Program Answer :=
  asked.bind fun o =>
    match o with
    | none => .ret (.javaReturn none)
    | some o => javaResult (rest o)

theorem answering_askingFor (env : JNIEnv) (argument : Option JavaString) (message : String)
    (p : JavaString → Program (Option Obtained)) (rest : Obtained → Program (Option JavaObject)) :
    answering (NativeOp.askingFor env argument message p) rest =
      nonNull env argument message fun s => answering (p s) rest := by
  cases argument <;> rfl

theorem handling_result {op : NativeOp} {o : Obtained} (sound : o.result.isException = false) :
    op.handling t o = (op.settling t o.converted).bind fun finished => op.disposing t finished o := by
  unfold NativeOp.handling
  split
  · rfl
  · simp [sound]
  · simp [sound]

theorem handling_call (func thisObj : Nat) (args : List (Option JavaObject)) (fuel : Nat) (o : Obtained) :
    (NativeOp.call func thisObj args fuel).handling t o =
      if o.result.isException then
        (throwPendingJSException (.ofThread t)).bind fun _ => .ret none
      else (Wrapper.freeValues o.converted).bind fun _ =>
        (executePendingJobLoop (.ofThread t) fuel).bind fun finished =>
          if finished then toJavaObject (.ofThread t) o.receiver o.result true
          else (freeValue o.result).bind fun _ => .ret none := by
  simp only [NativeOp.handling, NativeOp.settling, NativeOp.jobFuel, NativeOp.disposing,
    NativeOp.converting, Prog.bind_eq, Prog.bind_assoc]
  rfl

theorem handling_execute (bytecode : Option (List UInt8)) (fuel : Nat) (val obj : JSValue) :
    (NativeOp.execute bytecode fuel).handling t ⟨val, obj, []⟩ =
      (executePendingJobLoop (.ofThread t) fuel).bind fun finished =>
        if finished then
          if val.isException then (throwPendingJSException (.ofThread t)).bind fun _ => .ret none
          else toJavaObject (.ofThread t) obj val true
        else (freeValue val).bind fun _ => .ret none := by
  have parts : ∀ finished : Bool, (if finished && val.isException then
      (throwPendingJSException (.ofThread t)).bind fun _ => .ret none
      else (NativeOp.execute bytecode fuel).disposing t finished ⟨val, obj, []⟩) =
      if finished then
        if val.isException then (throwPendingJSException (.ofThread t)).bind fun _ => .ret none
        else toJavaObject (.ofThread t) obj val true
      else (freeValue val).bind fun _ => .ret none := by
    intro finished
    cases finished <;> rfl
  exact congrArg (executePendingJobLoop (.ofThread t) fuel).bind (funext parts)

theorem program_parts {op : NativeOp} (returns : op.returnsResult = true) :
    op.program t = answering (op.asking t) (op.handling t) := by
  cases op with
  | evaluate script fileName fuel =>
    simp only [NativeOp.asking, NativeOp.askingEval, answering_askingFor]
    rfl
  | evaluateModule script fileName fuel =>
    simp only [NativeOp.asking, NativeOp.askingEval, answering_askingFor]
    rfl
  | getProperty objValue name =>
    simp only [NativeOp.asking, answering_askingFor]
    rfl
  | parseJSON json =>
    simp only [NativeOp.asking, answering_askingFor]
    rfl
  | get objValue index => rfl
  | call func thisObj args fuel =>
    simp only [NativeOp.program, NativeOp.asking, answering, javaResult, Wrapper.call, Prog.bind_eq,
      Prog.bind_assoc]
    congr 1
    funext converted
    cases converted with
    | none => rfl
    | some converted =>
      refine congrArg (Prog.enter _) (funext fun ret => ?_)
      exact congrArg javaResult (handling_call func thisObj args fuel ⟨ret.toValue, _, _⟩).symm
  | execute bytecode fuel =>
    cases bytecode with
    | none => rfl
    | some bytecode =>
      refine congrArg (Prog.enter _) (funext fun obj => ?_)
      simp only [Prog.bind_eq, Prog.bind_ret]
      split
      · simp only [Prog.bind_assoc]
        rfl
      · refine congrArg (Prog.enter _) (funext fun status => ?_)
        simp only [Prog.bind_ret]
        split
        · rfl
        · refine congrArg (Prog.enter _) (funext fun val => ?_)
          exact congrArg javaResult (handling_execute (some bytecode) fuel val.toValue obj.toValue).symm
  | _ => cases returns

end Phases

section Releases
variable {R : Type} {w u : World} {h : BridgeHistory} {v : JSValue}

def Item.frees (v : JSValue) : BridgeItem → Bool
  | .call (.engine (.freeValue v')) _ _ => v' = v
  | _ => false

def releases (v : JSValue) (h : BridgeHistory) : Nat := h.countP (Item.frees v)

theorem releases_append (v : JSValue) (h later : BridgeHistory) :
    releases v (h ++ later) = releases v h + releases v later :=
  List.countP_append

theorem frees_iff {item : BridgeItem} :
    Item.frees v item = true ↔ ∃ a s, item = .call (.engine (.freeValue v)) a s := by
  constructor
  · intro frees
    unfold Item.frees at frees
    split at frees
    · rw [of_decide_eq_true frees]
      exact ⟨_, _, rfl⟩
    · cases frees
  · rintro ⟨a, s, rfl⟩
    exact decide_eq_true rfl

theorem ne_freeValue {e : EngineCall} (keeps : e.consumed = none) :
    ForeignCall.engine e ≠ .engine (.freeValue v) := by
  intro same
  cases same
  cases keeps

abbrev Spares (v : JSValue) (p : Program R) : Prop :=
  p.Within (fun _ => True) fun e => e ≠ .engine (.freeValue v)

theorem releases_spared {out : Outcome R} {p : Program R} (spares : Spares v p)
    (run : Exec bridge.meaning p w h out u) : releases v h = 0 := by
  apply List.countP_eq_zero.2
  intro item issued frees
  obtain ⟨a, s, rfl⟩ := frees_iff.1 frees
  exact (exec_within spares run).2 _ a s issued rfl

theorem releases_freeValue {out : Outcome Unit} (counted : v.addr?.isSome = true)
    (run : Exec bridge.meaning (freeValue v) w h out u) : releases v h = 1 := by
  unfold freeValue at run
  split at run
  next uncounted =>
    rw [uncounted] at counted
    cases counted
  next =>
    obtain ⟨a, s, rest, answers, tail, rfl⟩ := exec_enter run
    obtain ⟨rfl, -, -⟩ := exec_ret tail
    simp [releases, Item.frees]

theorem spares_freeValue {other : JSValue} (differ : other ≠ v) : Spares v (freeValue other) := by
  unfold freeValue
  split
  · trivial
  · refine ⟨fun same => ?_, fun _ => trivial⟩
    cases same
    exact differ rfl

theorem spares_borrowed (env : JNIEnv) (thisObj value : JSValue) :
    Spares v (toJavaObject env thisObj value false) := by
  cases value with
  | string p s =>
    refine Prog.within_bind ⟨ne_freeValue rfl, fun _ => trivial⟩ fun text => ?_
    apply Prog.within_bind
    · cases text with
      | none => trivial
      | some bytes => exact ⟨trivial, fun _ => trivial⟩
    · exact fun _ => trivial
  | object p =>
    refine Prog.within_bind (Prog.within_bind ⟨trivial, fun _ => trivial⟩ fun isFunction => ?_)
      fun _ => trivial
    split
    · exact ⟨trivial, fun _ => trivial⟩
    · refine Prog.within_bind ⟨ne_freeValue rfl, fun _ => trivial⟩ fun isArray => ?_
      split <;> exact ⟨trivial, fun _ => trivial⟩
  | float64 d =>
    simp only [toJavaObject]
    split <;> exact ⟨trivial, fun _ => trivial⟩
  | bool b => exact ⟨trivial, fun _ => trivial⟩
  | int n => exact ⟨trivial, fun _ => trivial⟩
  | bigInt p n => exact ⟨trivial, fun _ => trivial⟩
  | _ => trivial

/-- For these values `toJavaObject` does not look at its last argument. -/
theorem toJavaObject_alike {env : JNIEnv} {thisObj : JSValue} (string : v.isString = false)
    (other : v.isObject = false) :
    toJavaObject env thisObj v true = toJavaObject env thisObj v false := by
  cases v with
  | string p s => cases string
  | object p => cases other
  | _ => rfl

theorem spares_toJSValue (env : JNIEnv) (o : Option JavaObject) : Spares v (toJSValue env o) := by
  have engine : ∀ {e : EngineCall}, e.consumed = none → Spares v (enterValue e) :=
    fun keeps => ⟨ne_freeValue keeps, fun _ => trivial⟩
  cases o with
  | none => trivial
  | some o =>
    cases o with
    | string s => exact ⟨trivial, fun _ => engine rfl⟩
    | long n =>
      refine ⟨trivial, fun _ => ?_⟩
      simp only [Prog.bind_ret]
      split
      · exact engine rfl
      · trivial
    | callFunction f =>
      refine Prog.within_bind (engine rfl) fun result => ?_
      exact Prog.within_bind ⟨trivial, fun _ => trivial⟩ fun id => ⟨trivial, fun _ => trivial⟩
    | _ => exact ⟨trivial, fun _ => trivial⟩

theorem spares_jsFnCallback (func thisObj : JSValue) (argv : List JSValue) :
    Spares v (jsFnCallback func thisObj argv) := by
  have arguments : Spares v (Wrapper.callbackArguments thisObj argv) := by
    induction argv with
    | nil => trivial
    | cons arg argv ih =>
      apply Prog.within_bind (spares_borrowed .saved thisObj arg)
      exact fun _ => Prog.within_bind ih fun _ => trivial
  have back : ∀ id args, Spares v (Wrapper.callFunctionBack id args) := by
    intro id args
    refine ⟨trivial, fun found => ?_⟩
    simp only [Prog.bind_ret]
    split
    · refine Prog.within_bind ⟨fun same => ?_, fun _ => trivial⟩ fun ret => ?_
      · cases same
      · split
        · exact ⟨trivial, fun _ => trivial⟩
        · trivial
    · exact ⟨trivial, fun _ => trivial⟩
  refine ⟨trivial, fun id => ⟨trivial, fun _ => ?_⟩⟩
  apply Prog.within_bind arguments
  intro javaArgs
  apply Prog.within_bind (back _ javaArgs)
  intro result
  apply Prog.within_bind (spares_toJSValue .saved result)
  intro jsValue
  apply Prog.within_bind
  · cases jsValue.isObject && !Wrapper.isCallFunction result with
    | true => exact ⟨trivial, fun _ => trivial⟩
    | false => trivial
  · exact fun _ => trivial

theorem releases_string {env : JNIEnv} {thisObj : JSValue} {o : Option JavaObject}
    (string : v.isString = true)
    (run : Exec bridge.meaning (toJavaObject env thisObj v true) w h (.returned o) u) :
    releases v h = 1 := by
  cases v with
  | string p s =>
    rcases exec_bind run with ⟨text, s₁, asked, later, first, rest, rfl⟩ | ⟨-, dead⟩
    · rcases exec_bind rest with ⟨made, s₂, making, last, second, third, rfl⟩ | ⟨-, dead⟩
      · rcases exec_bind third with ⟨_, s₃, freeing, done, free, fourth, rfl⟩ | ⟨-, dead⟩
        · obtain ⟨rfl, -, -⟩ := exec_ret fourth
          have one : releases (.string p s) asked = 0 := by
            apply releases_spared _ first
            exact ⟨ne_freeValue rfl, fun _ => trivial⟩
          have two : releases (.string p s) making = 0 := by
            apply releases_spared _ second
            cases text with
            | none => trivial
            | some bytes => exact ⟨trivial, fun _ => trivial⟩
          have three : releases (.string p s) freeing = 1 := releases_freeValue rfl free
          rw [releases_append, releases_append, releases_append, one, two, three]
          rfl
        · cases dead
      · cases dead
    · cases dead
  | _ => cases string

theorem releases_toJavaObject {env : JNIEnv} {thisObj : JSValue} {o : Option JavaObject}
    (other : v.isObject = false)
    (run : Exec bridge.meaning (toJavaObject env thisObj v true) w h (.returned o) u) :
    releases v h = if v.isString then 1 else 0 := by
  cases string : v.isString with
  | false =>
    rw [toJavaObject_alike string other] at run
    exact releases_spared (spares_borrowed env thisObj v) run
  | true => exact releases_string string run

theorem releases_converting {t : ThreadId} {op : NativeOp} {x : Obtained} {o : Option JavaObject}
    (other : x.result.isObject = false)
    (run : Exec bridge.meaning (op.converting t x) w h (.returned o) u) :
    releases x.result h = if x.result.isString then 1 else 0 := by
  have forGlobal : Exec bridge.meaning ((askValue .getGlobalObject).bind fun global =>
      (toJavaObject (.ofThread t) global x.result true).bind fun jsObj =>
      (freeValue global).bind fun _ => .ret jsObj) w h (.returned o) u →
      releases x.result h = if x.result.isString then 1 else 0 := by
    intro run
    obtain ⟨a, s, rest, acts, tail, rfl⟩ := exec_prim run
    obtain ⟨s', -, same⟩ := Option.map_eq_some_iff.1 acts
    cases same
    replace tail : Exec bridge.meaning ((toJavaObject (.ofThread t) (.object w.globalObj) x.result true).bind
        fun jsObj => (freeValue (.object w.globalObj)).bind fun _ => .ret jsObj) s rest (.returned o) u := tail
    rcases exec_bind tail with ⟨jsObj, s₂, making, last, second, third, rfl⟩ | ⟨-, dead⟩
    · have made := releases_toJavaObject other second
      have left : releases x.result last = 0 := by
        apply releases_spared _ third
        refine Prog.within_bind (spares_freeValue fun same => ?_) fun _ => trivial
        rw [← same] at other
        cases other
      rw [← List.cons_append, releases_append, left, ← made]
      rfl
    · cases dead
  unfold NativeOp.converting at run
  split at run
  · exact forGlobal run
  · exact forGlobal run
  · exact releases_toJavaObject other run

theorem releases_disposing {t : ThreadId} {op : NativeOp} {x : Obtained} {finished : Bool}
    {o : Option JavaObject} (counted : x.result.addr?.isSome = true) (other : x.result.isObject = false)
    (run : Exec bridge.meaning (op.disposing t finished x) w h (.returned o) u) :
    releases x.result h = if x.result.isString || !finished then 1 else 0 := by
  cases finished with
  | true =>
    rw [releases_converting other run, Bool.not_true, Bool.or_false]
  | false =>
    rcases exec_bind run with ⟨_, s, freeing, rest, free, last, rfl⟩ | ⟨-, dead⟩
    · obtain ⟨rfl, -, -⟩ := exec_ret last
      rw [List.append_nil, releases_freeValue counted free, Bool.not_false, Bool.or_true]
      rfl
    · cases dead

end Releases

section Settling
variable {w u : World} {h : BridgeHistory}

def jobThrew : BridgeItem → Bool
  | .call (.engine .jobFunc) (.value .exception) _ => true
  | _ => false

theorem jobThrew_jobFunc (v : JSValue) (s : World) :
    jobThrew (.call (.engine .jobFunc) (.value v) s) = v.isException := by
  cases v <;> rfl

theorem none_threw {R : Type} {p : Program R} {out : Outcome R}
    (within : p.Within (fun _ => True) fun e => e ≠ .engine .jobFunc)
    (run : Exec bridge.meaning p w h out u) : h.any jobThrew = false := by
  apply List.any_eq_false.2
  intro item issued threw
  unfold jobThrew at threw
  split at threw
  · exact (exec_within within run).2 _ _ _ issued rfl
  · cases threw

theorem none_threw_asking {R : Type} {p : Program R} {out : Outcome R} (asks : Asks p)
    (run : Exec bridge.meaning p w h out u) : h.any jobThrew = false :=
  none_threw (Prog.within_mono asks (fun _ _ => trivial) fun _ ok => ok.2) run

theorem none_threw_freeing {v : JSValue} {out : Outcome Unit}
    (run : Exec bridge.meaning (freeValue v) w h out u) : h.any jobThrew = false :=
  none_threw_asking (asks_freeValue v) run

theorem exec_pendingJob {err : Int32}
    (run : Exec bridge.meaning executePendingJob w h (.returned err) u) :
    err < 0 ↔ h.any jobThrew = true := by
  have looked : Exec bridge.meaning ((ask .jobListEmpty).bind fun empty =>
      if empty then .ret 0 else (act .takeJob).bind fun _ => (enterValue .jobFunc).bind fun res =>
      (freeValue res).bind fun _ => .ret (if res.isException then -1 else 1))
      w h (.returned err) u := run
  obtain ⟨a, s, rest, acts, tail, rfl⟩ := exec_prim looked
  cases acts
  replace tail : Exec bridge.meaning (if decide (w.jobs = 0) then Prog.ret 0 else
      (act .takeJob).bind fun _ => (enterValue .jobFunc).bind fun res =>
      (freeValue res).bind fun _ => .ret (if res.isException then -1 else 1))
      w rest (.returned err) u := tail
  split at tail
  · obtain ⟨rfl, same, -⟩ := exec_ret tail
    cases same
    exact iff_of_false (by decide) (by simp [jobThrew])
  · obtain ⟨a, s, rest, -, taken, rfl⟩ := exec_prim tail
    obtain ⟨a', s', rest, answers, ran, rfl⟩ := exec_enter taken
    obtain ⟨x, y, labels, -, -, back⟩ := answers
    replace back : deliverEngine .jobFunc a' y = some s' := back
    cases a' with
    | value v =>
      replace ran : Exec bridge.meaning ((freeValue v).bind fun _ =>
        .ret (if v.isException then -1 else 1)) s' rest (.returned err) u := ran
      rcases exec_bind ran with ⟨_, s₂, freeing, last, free, done, rfl⟩ | ⟨-, dead⟩
      · obtain ⟨rfl, same, -⟩ := exec_ret done
        cases same
        have quiet := none_threw_freeing free
        rw [List.append_nil, List.any_cons, List.any_cons, List.any_cons, quiet]
        simp only [jobThrew_jobFunc]
        cases v.isException with
        | true => exact iff_of_true (by decide) rfl
        | false => exact iff_of_false (by decide) Bool.false_ne_true
      · cases dead
    | _ => cases back

theorem exec_rounds {env : JNIEnv} {fuel : Nat} {finished : Bool}
    (run : Exec bridge.meaning (pendingJobRounds env fuel) w h (.returned finished) u) :
    finished = false ↔ h.any jobThrew = true := by
  induction fuel generalizing w h with
  | zero => exact (exec_spin run).elim
  | succ fuel ih =>
    rcases exec_bind run with ⟨err, s, job, later, first, rest, rfl⟩ | ⟨-, dead⟩
    · have threw := exec_pendingJob first
      rw [List.any_append]
      split at rest
      next more =>
        have none : job.any jobThrew = false := by
          rw [← Bool.not_eq_true, ← threw]
          exact fun less => Int32.lt_irrefl (Int32.lt_trans more less)
        rw [ih rest, none, Bool.false_or]
      next =>
        split at rest
        next less =>
          rcases exec_bind rest with ⟨error, s₂, taking, last, second, third, rfl⟩ | ⟨-, dead⟩
          · rcases exec_bind third with ⟨_, s₃, throwing, done, throws, fourth, rfl⟩ | ⟨-, dead⟩
            · obtain ⟨-, same, -⟩ := exec_ret fourth
              cases same
              exact iff_of_true rfl (by rw [threw.1 less]; rfl)
            · cases dead
          · cases dead
        next notLess =>
          obtain ⟨rfl, same, -⟩ := exec_ret rest
          cases same
          exact iff_of_false Bool.noConfusion (by simp [← threw, notLess])
    · cases dead

theorem exec_noRejections {fuel : Nat} {thrown : Bool} (queue : w.unhandledRejections = [])
    (run : Exec bridge.meaning (throwIfUnhandledRejections fuel) w h (.returned thrown) u) :
    thrown = false ∧ h.any jobThrew = false := by
  cases fuel with
  | zero => exact (exec_spin run).elim
  | succ fuel =>
    obtain ⟨a, s, rest, acts, tail, rfl⟩ := exec_prim run
    replace acts : exec .rejectionsEmpty w = some (a, s) := acts
    rw [exec, queue] at acts
    cases acts
    obtain ⟨rfl, same, -⟩ := exec_ret tail
    cases same
    exact ⟨rfl, rfl⟩

theorem exec_loop {env : JNIEnv} {fuel : Nat} {finished : Bool} (queue : w.unhandledRejections = [])
    (run : Exec bridge.meaning (executePendingJobLoop env fuel) w h (.returned finished) u) :
    finished = false ↔ w.javaException.isSome = true ∨ h.any jobThrew = true := by
  obtain ⟨a, s, rest, acts, tail, rfl⟩ := exec_prim run
  cases acts
  replace tail : Exec bridge.meaning (if w.javaException.isSome then Prog.ret false else
      (pendingJobRounds env fuel).bind fun finished =>
        if finished then (act .getRuntimeOpaque).bind fun _ =>
          (throwIfUnhandledRejections fuel).bind fun thrown => .ret !thrown
        else .ret false) w rest (.returned finished) u := tail
  split at tail
  next pending =>
    obtain ⟨rfl, same, -⟩ := exec_ret tail
    cases same
    exact iff_of_true rfl (Or.inl pending)
  next clear =>
    rcases exec_bind tail with ⟨ended, s, rounds, later, first, second, rfl⟩ | ⟨-, dead⟩
    · have threw := exec_rounds first
      have none := chain_rejections (exec_chain first) queue
      have here : jobThrew (.prim (.exceptionCheck env) (.bool w.javaException.isSome) w) = false := rfl
      rw [List.any_cons, here, Bool.false_or, List.any_append]
      cases ended with
      | false =>
        obtain ⟨rfl, same, -⟩ := exec_ret second
        cases same
        exact iff_of_true rfl (Or.inr (by rw [threw.1 rfl]; rfl))
      | true =>
        obtain ⟨a, s', rest, acts, asked, rfl⟩ := exec_prim second
        cases acts
        replace asked : Exec bridge.meaning ((throwIfUnhandledRejections fuel).bind fun thrown =>
            .ret !thrown) (s.readSlot .wrapper) rest (.returned finished) u := asked
        rcases exec_bind asked with ⟨thrown, s₂, texts, last, third, fourth, rfl⟩ | ⟨-, dead⟩
        · obtain ⟨rfl, quiet⟩ := exec_noRejections (w := s.readSlot .wrapper) none third
          obtain ⟨rfl, same, -⟩ := exec_ret fourth
          cases same
          have slot : jobThrew (.prim .getRuntimeOpaque .unit (s.readSlot .wrapper)) = false := rfl
          rw [List.append_nil, List.any_cons, slot, quiet, Bool.or_false, Bool.or_false, ← threw]
          exact iff_of_false Bool.noConfusion (not_or.2 ⟨clear, Bool.noConfusion⟩)
        · cases dead
    · cases dead

theorem calm_freeValues (values : List JSValue) :
    (Wrapper.freeValues values).Within (fun c => c.throws = false) IsCalm := by
  induction values with
  | nil => trivial
  | cons v values ih =>
    have calm : Calm (fun _ => False) (freeValue v) := calm_freeValue v
    apply Prog.within_bind
    · exact Prog.within_mono calm (fun _ none => none.elim) fun _ ok => ok
    · exact fun _ => ih

theorem exec_freeing {values : List JSValue} {out : Outcome Unit}
    (run : Exec bridge.meaning (Wrapper.freeValues values) w h out u) :
    h.any jobThrew = false ∧ u.javaException = w.javaException := by
  have calm := calm_freeValues values
  refine ⟨?_, (exec_silent calm run).1⟩
  apply none_threw (Prog.within_mono calm (fun _ _ => trivial) _) run
  rintro e ⟨call, rfl, noJS⟩ same
  cases same
  cases noJS

/-- The jobs of an operation come to their end, unless a Java exception is pending or one of
    them throws. -/
theorem exec_settling {t : ThreadId} {op : NativeOp} {converted : List JSValue} {finished : Bool}
    (queue : w.unhandledRejections = [])
    (run : Exec bridge.meaning (op.settling t converted) w h (.returned finished) u) :
    finished = false ↔ op.jobFuel.isSome = true ∧
      (w.javaException.isSome = true ∨ h.any jobThrew = true) := by
  rcases exec_bind run with ⟨_, s, freeing, later, first, second, rfl⟩ | ⟨-, dead⟩
  · obtain ⟨quiet, same⟩ := exec_freeing first
    have none := chain_rejections (exec_chain first) queue
    cases jobs : op.jobFuel with
    | none =>
      rw [jobs] at second
      obtain ⟨-, done, -⟩ := exec_ret second
      cases done
      simp
    | some fuel =>
      rw [jobs] at second
      rw [exec_loop none second, same, List.any_append, quiet, Bool.false_or]
      simp
  · cases dead

end Settling

section Results

/-- An operation of a reachable state that got a result from the engine, in its three parts. -/
structure ResultRun where
  globalObj : Addr
  jvm : List UInt8 → JavaString
  labels : List BridgeLabel
  start : BridgeConfig
  ran : bridge.run labels (initial globalObj jvm) = some start
  thread : ThreadId
  op : NativeOp
  returns : op.returnsResult = true
  entered : start.control = .native (op.program thread)
  answer : Option JavaObject
  stop : World
  early : BridgeHistory
  middle : BridgeHistory
  late : BridgeHistory
  run : Exec bridge.meaning (op.program thread) start.state (early ++ (middle ++ late))
    (.returned (.javaReturn answer)) stop
  obtained : Obtained
  sound : obtained.result.isException = false
  given : World
  asks : Exec bridge.meaning (op.asking thread) start.state early (.returned (some obtained)) given
  finished : Bool
  settled : World
  settles : Exec bridge.meaning (op.settling thread obtained.converted) given middle
    (.returned finished) settled
  disposes : Exec bridge.meaning (op.disposing thread finished obtained) settled late
    (.returned answer) stop

namespace ResultRun

/-- Between its result and its end the operation gives up the reference exactly once. What it
    frees before it is told the value are other references. -/
def ReleasedOnce (r : ResultRun) : Prop := releases r.obtained.result r.late = 1

/-- The jobs after the result did not come to their end: a callback had thrown, or one of them
    threw. -/
def Interrupted (r : ResultRun) : Prop :=
  r.op.jobFuel.isSome = true ∧ (r.given.javaException.isSome = true ∨ r.middle.any jobThrew = true)

theorem exists_of_exec {globalObj : Addr} {jvm : List UInt8 → JavaString}
    {labels : List BridgeLabel} {start : BridgeConfig}
    (ran : bridge.run labels (initial globalObj jvm) = some start) {t : ThreadId} {op : NativeOp}
    (returns : op.returnsResult = true) (entered : start.control = .native (op.program t))
    {h : BridgeHistory} {a : Answer} {u : World}
    (run : Exec bridge.meaning (op.program t) start.state h (.returned a) u) :
    ∃ early later asked s, h = early ++ later ∧
      Exec bridge.meaning (op.asking t) start.state early (.returned asked) s ∧
      ∀ o, asked = some o → o.result.isException = false → ∃ r : ResultRun, r.op = op ∧
        r.start = start ∧ r.early = early ∧ r.obtained = o ∧ later = r.middle ++ r.late := by
  have parts := run
  rw [program_parts returns] at parts
  rcases exec_bind parts with ⟨asked, s, early, later, first, second, rfl⟩ | ⟨-, dead⟩
  · refine ⟨early, later, asked, s, rfl, first, ?_⟩
    rintro o rfl sound
    rcases exec_bind second with ⟨answer, s', body, last, third, fourth, rfl⟩ | ⟨-, dead⟩
    · obtain ⟨rfl, same, rfl⟩ := exec_ret fourth
      cases same
      rw [List.append_nil] at run ⊢
      rw [handling_result sound] at third
      rcases exec_bind third with ⟨finished, settled, middle, late, settles, disposes, rfl⟩ | ⟨-, dead⟩
      · exact ⟨⟨globalObj, jvm, labels, start, ran, t, op, returns, entered, answer, _, early, middle,
          late, run, o, sound, s, first, finished, settled, settles, disposes⟩, rfl, rfl, rfl, rfl, rfl⟩
      · cases dead
    · cases dead
  · cases dead

theorem exists_of_parts {globalObj : Addr} {jvm : List UInt8 → JavaString}
    {labels : List BridgeLabel} {start : BridgeConfig}
    (ran : bridge.run labels (initial globalObj jvm) = some start) {t : ThreadId} {op : NativeOp}
    (returns : op.returnsResult = true) (entered : start.control = .native (op.program t))
    {o : Obtained} (sound : o.result.isException = false) {good : BridgeHistory → Prop}
    (parts : Can bridge.meaning (op.asking t) [] start.state fun asked _ s => asked = some o ∧
      Can bridge.meaning (op.settling t o.converted) [] s fun finished _ s =>
        Can bridge.meaning (op.disposing t finished o) [] s fun _ late _ => good late) :
    ∃ r : ResultRun, r.op = op ∧ r.obtained = o ∧ good r.late := by
  obtain ⟨_, early, given, asks, rfl, finished, middle, settled, settles, answer, late, stop,
    disposes, holds⟩ := parts
  have handled : Exec bridge.meaning (op.handling t o) given (middle ++ late) (.returned answer) stop := by
    rw [handling_result sound]
    exact exec_append settles disposes
  have run : Exec bridge.meaning (op.program t) start.state (early ++ (middle ++ late))
      (.returned (.javaReturn answer)) stop := by
    rw [program_parts returns]
    apply exec_append asks
    rw [← List.append_nil (middle ++ late)]
    exact exec_append handled (.ret _ _)
  exact ⟨⟨globalObj, jvm, labels, start, ran, t, op, returns, entered, answer, stop, early, middle, late,
    run, o, sound, given, asks, finished, settled, settles, disposes⟩, rfl, rfl, holds⟩

end ResultRun

/-- An execution of a callback. -/
structure CallbackRun where
  func : JSValue
  thisObj : JSValue
  argv : List JSValue
  before : World
  history : BridgeHistory
  out : Outcome JSValue
  after : World
  run : Exec bridge.meaning (jsFnCallback func thisObj argv) before history out after

/-- A result that is counted and no object is given up exactly once where it is a string or the
    jobs are interrupted; BigInts, symbols and the like are kept for good. A callback gives up
    none of its arguments. -/
theorem result_released_iff (r : ResultRun) (counted : r.obtained.result.addr?.isSome = true)
    (other : r.obtained.result.isObject = false) :
    (r.ReleasedOnce ↔ r.obtained.result.isString = true ∨ r.Interrupted) ∧
      ∀ c : CallbackRun, ∀ v, releases v c.history = 0 := by
  constructor
  · have queue := chain_rejections (exec_chain r.asks) (reached_rejections r.ran)
    have stopped := exec_settling queue r.settles
    rw [ResultRun.ReleasedOnce, releases_disposing counted other r.disposes, ResultRun.Interrupted,
      ← stopped]
    cases r.obtained.result.isString <;> cases r.finished <;> simp
  · intro c v
    exact releases_spared (spares_jsFnCallback c.func c.thisObj c.argv) c.run

/-- The value of a string property is given up. -/
theorem string_released : ∃ r : ResultRun, r.obtained.result = .string 5 (.ofUnits []) ∧ r.ReleasedOnce := by
  have ran : ∃ c, bridge.run (entersOnGlobal fun o => .getProperty (some o) (some []))
      (initial 1 fun _ => []) = some c ∧
      c.control = .native ((NativeOp.getProperty 1 (some [])).program 0) ∧
      Can bridge.meaning ((NativeOp.getProperty 1 (some [])).asking 0) [] c.state fun asked _ s =>
        asked = some ⟨.string 5 (.ofUnits []), .object 1, []⟩ ∧
        Can bridge.meaning ((NativeOp.getProperty 1 (some [])).settling 0 []) [] s fun finished _ s =>
          Can bridge.meaning ((NativeOp.getProperty 1 (some [])).disposing 0 finished
            ⟨.string 5 (.ofUnits []), .object 1, []⟩) [] s fun _ _ _ => True := by
    refine ⟨_, rfl, rfl, ?_⟩
    refine can_prim rfl ?_
    refine can_enter (a := .value (.string 5 (.ofUnits [])))
      ⟨_, _, [.event (.engine (.alloc 5 none))], rfl, rfl, rfl⟩ ?_
    refine can_ret ⟨rfl, can_ret ?_⟩
    refine can_enter (a := .text (some [])) ⟨_, _, [], rfl, rfl, rfl⟩ (can_prim rfl ?_)
    refine can_enter (a := .unit) ⟨_, _, [], rfl, rfl, rfl⟩ ?_
    exact can_ret trivial
  obtain ⟨c, ran, entered, parts⟩ := ran
  obtain ⟨r, -, same, -⟩ := ResultRun.exists_of_parts ran rfl entered rfl parts
  refine ⟨r, congrArg Obtained.result same, ?_⟩
  have counted : r.obtained.result.addr?.isSome = true := by rw [same]; rfl
  have other : r.obtained.result.isObject = false := by rw [same]; rfl
  exact (result_released_iff r counted other).1.2 (Or.inl (by rw [same]; rfl))

/-- A script whose value is a BigInt: nobody ever gives up the reference. -/
theorem bigInt_result_kept : ¬ ∀ r : ResultRun, r.obtained.result.addr?.isSome = true →
    r.obtained.result.isObject = false → r.ReleasedOnce := by
  intro released
  have ran : ∃ c, bridge.run (entersEvaluate 1) (initial 1 fun _ => []) = some c ∧
      c.control = .native ((NativeOp.evaluate (some []) (some []) 1).program 0) ∧
      Can bridge.meaning ((NativeOp.evaluate (some []) (some []) 1).asking 0) [] c.state fun asked _ s =>
        asked = some ⟨.bigInt 5 1, .undefined, []⟩ ∧
        Can bridge.meaning ((NativeOp.evaluate (some []) (some []) 1).settling 0 []) [] s fun finished _ s =>
          Can bridge.meaning ((NativeOp.evaluate (some []) (some []) 1).disposing 0 finished
            ⟨.bigInt 5 1, .undefined, []⟩) [] s fun _ late _ => releases (.bigInt 5 1) late = 0 := by
    refine ⟨_, rfl, rfl, ?_⟩
    refine can_prim rfl (can_prim rfl ?_)
    refine can_enter (a := .value (.bigInt 5 1))
      ⟨_, _, [.event (.engine (.alloc 5 none))], rfl, rfl, rfl⟩ ?_
    refine can_ret ⟨rfl, ?_⟩
    refine can_prim rfl (can_prim rfl (can_prim rfl (can_prim rfl (can_ret ?_))))
    refine can_prim rfl (can_prim rfl ?_)
    refine can_enter (a := .unit) ⟨_, _, [], rfl, rfl, rfl⟩ ?_
    exact can_ret rfl
  obtain ⟨c, ran, entered, parts⟩ := ran
  obtain ⟨r, -, same, none⟩ := ResultRun.exists_of_parts ran rfl entered rfl parts
  have once := released r (by rw [same]; rfl) (by rw [same]; rfl)
  rw [ResultRun.ReleasedOnce, same, none] at once
  cases once

end Results
end QuickJSBridge
