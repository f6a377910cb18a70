import QuickJSBridge.OperationPhases

/- The main evaluation of an operation and the job loop that comes with it. Evaluations of source
   and calls look at the result first and run the pending jobs only where it is no exception;
   execute runs them first. -/
namespace QuickJSBridge
open HostProgram ReentrantMachine

section Items

def runsJS : BridgeItem → Bool
  | .prim _ _ _ => false
  | .call (.engine e) _ _ => e.runsJS
  | .call (.java _ _) _ _ => true

def takesException : BridgeItem → Bool
  | .prim .getException _ _ => true
  | _ => false

def jobFails : BridgeItem → Bool
  | .call (.engine .jobFunc) (.value v) _ => v.isException
  | _ => false

def Prim.takes : Prim → Bool
  | .getException => true
  | _ => false

def ForeignCall.evaluates : ForeignCall → Bool
  | .engine (.eval _ _ flags) => !flags.compileOnly
  | .engine (.evalFunction _) | .engine (.call _ _ _) => true
  | _ => false

def ForeignCall.isJob : ForeignCall → Bool
  | .engine e => e.isJob
  | .java _ _ => false

/-- The pending jobs are run before the result of the evaluation is looked at. -/
def NativeOp.runsJobsFirst : NativeOp → Bool
  | .execute _ _ => true
  | _ => false

abbrev isMain : BridgeItem → Bool := Item.marked Prim.takes ForeignCall.evaluates

/-- The main evaluation of an operation, unless an earlier failure is reported. -/
def mainItem? (h : BridgeHistory) : Option BridgeItem := h.find? isMain

abbrev Jobless {R : Type} (p : Program R) : Prop := p.Within (fun _ => True) fun e => e.isJob = false

def Kind.isLoop : Kind → Bool
  | .loop => true
  | _ => false

def NoLoop (k : Kind) : Prop := k.isLoop = false

theorem jobless_issues {R : Type} {p : Program R} (issues : Issues NoLoop p) : Jobless p := by
  refine Prog.within_mono issues (fun _ _ => trivial) ?_
  rintro (e | ⟨f, args⟩) ⟨engine, guarded⟩
  · cases e <;> first | rfl | cases guarded rfl
  · rfl

theorem steady_silent {c : Prim} {a : Answer} {w : World} (may : Steady c.kind) :
    takesException (.prim c a w) = false := by
  cases c <;> first | rfl | cases may

end Items

section Loop
variable {w u : World} {h : BridgeHistory} {env : JNIEnv}

theorem chain_rejections (chain : Chain bridge.meaning w h u) (none : w.unhandledRejections = []) :
    u.unhandledRejections = [] := by
  apply path_invariant (fun s => s.unhandledRejections = []) _ chain none
  intro s item happens none
  cases item with
  | prim c a s => exact exec_rejections none happens
  | call e a s => exact reply_rejections happens none

theorem exec_freeValue {v : JSValue} {out : Outcome Unit}
    (run : Exec bridge.meaning (freeValue v) w h out u) :
    out = .returned () ∧ u.javaException = w.javaException ∧
      ∀ item ∈ h, ∃ a s, item = .call (.engine (.freeValue v)) a s := by
  unfold freeValue at run
  cases counted : v.addr? with
  | none =>
    rw [counted] at run
    obtain ⟨rfl, rfl, rfl⟩ := exec_ret run
    exact ⟨rfl, rfl, by simp⟩
  | some p =>
    rw [counted] at run
    obtain ⟨a, s, rest, answers, tail, rfl⟩ := exec_enter run
    obtain ⟨rfl, rfl, rfl⟩ := exec_ret tail
    exact ⟨rfl, congrArg Agenda.javaException (reply_quiet rfl answers), by simp⟩

theorem frees_none (marked : BridgeItem → Bool)
    (unmarked : ∀ v a s, marked (.call (.engine (.freeValue v)) a s) = false)
    (frees : ∀ item ∈ h, ∃ v a s, item = .call (.engine (.freeValue v)) a s) : h.any marked = false := by
  apply List.any_eq_false.2
  intro item member
  obtain ⟨v, a, s, rfl⟩ := frees item member
  simp [unmarked v a s]

theorem taken_first {R : Type} {f : List Piece → Program R} {out : Outcome R}
    (run : Exec bridge.meaning (getPendingErrorStr.bind f) w h out u) :
    h.any takesException = true := by
  obtain ⟨a, s, rest, -, -, rfl⟩ := exec_prim run
  rfl

theorem exec_executePendingJob {out : Outcome Int32}
    (run : Exec bridge.meaning executePendingJob w h out u) : h.any takesException = false ∧
      ∃ err : Int32, out = .returned err ∧ (err = 0 ∨ err = 1 ∨ err = -1) ∧
        h.any jobFails = decide (err < 0) := by
  obtain ⟨a, s, rest, acts, tail, rfl⟩ := exec_prim run
  cases acts
  cases empty : decide (w.jobs = 0) with
  | true =>
    rw [empty] at tail
    obtain ⟨rfl, rfl, rfl⟩ := exec_ret tail
    exact ⟨rfl, 0, rfl, Or.inl rfl, rfl⟩
  | false =>
    rw [empty] at tail
    replace tail : Exec bridge.meaning (.prim .takeJob fun _ => .enter (.engine .jobFunc) fun a =>
        (freeValue a.toValue).bind fun _ => .ret (if a.toValue.isException then -1 else 1)) w rest out u :=
      tail
    obtain ⟨b, x, rest, -, started, rfl⟩ := exec_prim tail
    obtain ⟨answer, y, rest, -, ended, rfl⟩ := exec_enter started
    rcases exec_bind ended with ⟨⟨⟩, z, freeing, after, freed, last, rfl⟩ | ⟨freed, -⟩
    · obtain ⟨-, -, frees⟩ := exec_freeValue freed
      replace frees : ∀ item ∈ freeing, ∃ v a s, item = .call (.engine (.freeValue v)) a s :=
        fun item member => ⟨_, frees item member⟩
      obtain ⟨rfl, rfl, rfl⟩ := exec_ret last
      have fails : jobFails (.call (.engine .jobFunc) answer y) = answer.toValue.isException := by
        cases answer <;> rfl
      rw [List.append_nil]
      refine ⟨?_, _, rfl, ?_, ?_⟩
      · simp [takesException, frees_none takesException (fun _ _ _ => rfl) frees]
      · split
        · exact Or.inr (Or.inr rfl)
        · exact Or.inr (Or.inl rfl)
      · simp only [List.any_cons, fails, frees_none jobFails (fun _ _ _ => rfl) frees]
        cases answer.toValue.isException <;> rfl
    · cases (exec_freeValue freed).1

theorem exec_pendingJobRounds {fuel : Nat} {out : Outcome Bool}
    (run : Exec bridge.meaning (pendingJobRounds env fuel) w h out u) :
    (out = .returned true ∧ h.any takesException = false ∧ h.any jobFails = false) ∨
    (out ≠ .returned true ∧ h.any takesException = true ∧ h.any jobFails = true) := by
  induction fuel generalizing w h with
  | zero => exact (exec_spin run).elim
  | succ fuel ih =>
    rcases exec_bind run with ⟨err, s, before, after, first, rest, rfl⟩ | ⟨first, -⟩
    · obtain ⟨silent, _, same, which, fails⟩ := exec_executePendingJob first
      cases same
      simp only [List.any_append, silent, fails, Bool.false_or]
      rcases which with rfl | rfl | rfl
      · obtain ⟨rfl, rfl, -⟩ := exec_ret rest
        exact Or.inl ⟨rfl, rfl, rfl⟩
      · simpa using ih rest
      · replace rest : Exec bridge.meaning (getPendingErrorStr.bind fun error =>
            (throwJSException env error).bind fun _ => .ret false) s after out u := rest
        refine Or.inr ⟨?_, taken_first rest, rfl⟩
        rintro rfl
        rcases exec_bind rest with ⟨error, x, _, _, -, rest, -⟩ | ⟨-, dead⟩
        · rcases exec_bind rest with ⟨_, y, _, _, -, last, -⟩ | ⟨-, dead⟩
          · cases (exec_ret last).2.1
          · cases dead
        · cases dead
    · obtain ⟨-, _, dead, -⟩ := exec_executePendingJob first
      cases dead

theorem exec_throwIfUnhandledRejections {fuel : Nat} {out : Outcome Bool}
    (none : w.unhandledRejections = [])
    (run : Exec bridge.meaning (throwIfUnhandledRejections fuel) w h out u) :
    out = .returned false ∧ h = [.prim .rejectionsEmpty (.bool true) w] := by
  cases fuel with
  | zero => exact (exec_spin run).elim
  | succ fuel =>
    obtain ⟨a, s, rest, acts, tail, rfl⟩ := exec_prim run
    cases acts
    rw [none] at tail ⊢
    obtain ⟨rfl, rfl, rfl⟩ := exec_ret tail
    exact ⟨rfl, rfl⟩

/-- How the job loop ends: skipped where a Java exception is pending, with nothing left to do, or
    with a job that failed and whose exception is taken. -/
inductive LoopRun (w : World) (h : BridgeHistory) : Outcome Bool → World → Prop where
  | skipped (pending : w.javaException.isSome = true) (untaken : h.any takesException = false)
      (none : h.any jobFails = false) : LoopRun w h (.returned false) w
  | settled {u : World} (clear : w.javaException = none) (untaken : h.any takesException = false)
      (none : h.any jobFails = false) : LoopRun w h (.returned true) u
  | failed {out : Outcome Bool} {u : World} (clear : w.javaException = none)
      (stops : out ≠ .returned true) (taken : h.any takesException = true)
      (fails : h.any jobFails = true) : LoopRun w h out u

theorem exec_executePendingJobLoop {fuel : Nat} {out : Outcome Bool}
    (none : w.unhandledRejections = [])
    (run : Exec bridge.meaning (executePendingJobLoop env fuel) w h out u) : LoopRun w h out u := by
  obtain ⟨a, s, rest, acts, tail, rfl⟩ := exec_prim run
  cases acts
  cases pending : w.javaException with
  | some e =>
    rw [pending] at tail
    obtain ⟨rfl, rfl, rfl⟩ := exec_ret tail
    exact .skipped (by simp [pending]) rfl rfl
  | none =>
    rw [pending] at tail
    replace tail : Exec bridge.meaning ((pendingJobRounds env fuel).bind fun finished =>
        if finished then .prim .getRuntimeOpaque fun _ => (throwIfUnhandledRejections fuel).bind
          fun thrown => .ret !thrown
        else .ret false) w rest out u := tail
    rcases exec_bind tail with ⟨finished, x, rounds, after, first, last, rfl⟩ | ⟨first, rfl⟩
    · rcases exec_pendingJobRounds first with ⟨same, silent, fine⟩ | ⟨other, taken, fails⟩
      · cases same
        obtain ⟨b, y, rest, reads, asks, rfl⟩ := exec_prim last
        replace reads : exec .getRuntimeOpaque x = some (b, y) := reads
        have here := exec_rejections (chain_rejections (exec_chain first) none) reads
        rcases exec_bind asks with ⟨thrown, z, asking, after, threw, ended, rfl⟩ | ⟨dead, -⟩
        · obtain ⟨same, rfl⟩ := exec_throwIfUnhandledRejections here threw
          cases same
          obtain ⟨rfl, rfl, rfl⟩ := exec_ret ended
          refine .settled pending ?_ ?_
          · simp [silent, takesException]
          · simp [fine, jobFails]
        · cases (exec_throwIfUnhandledRejections here dead).1
      · cases finished with
        | true => exact absurd rfl other
        | false =>
          obtain ⟨rfl, rfl, rfl⟩ := exec_ret last
          refine .failed pending nofun ?_ ?_
          · simp [taken]
          · simp [fails]
    · rcases exec_pendingJobRounds first with ⟨dead, -⟩ | ⟨-, taken, fails⟩
      · cases dead
      · refine .failed pending nofun ?_ ?_
        · simp [taken]
        · simp [fails]

end Loop

section Evaluations
variable {R S : Type} {jobsFirst : Bool} {v : JSValue}

inductive WindsUp (jobsFirst : Bool) (v : JSValue) : Program R → Prop where
  | reports {env : JNIEnv} {r : R} (fails : v.isException = true) (early : jobsFirst = false) :
      WindsUp jobsFirst v ((throwPendingJSException env).bind fun _ => .ret r)
  | reportsLate {env : JNIEnv} {fuel : Nat} {r : R} (fails : v.isException = true)
      (late : jobsFirst = true) : WindsUp jobsFirst v
        ((executePendingJobLoop env fuel).bind fun finished =>
          if finished then (throwPendingJSException env).bind fun _ => .ret r else .ret r)
  | goesOn {env : JNIEnv} {fuel : Nat} {values : List JSValue} {r : R} {result : Program R}
      (fine : v.isException = false) (calm : Calm Steady result) : WindsUp jobsFirst v
        ((Wrapper.freeValues values).bind fun _ => (executePendingJobLoop env fuel).bind fun finished =>
          if finished then result else (freeValue v).bind fun _ => .ret r)

theorem WindsUp.map {q : Program R} (continues : WindsUp jobsFirst v q) (f : R → S) :
    WindsUp jobsFirst v (q.bind fun r => .ret (f r)) := by
  cases continues with
  | reports fails early =>
    rw [Prog.bind_assoc]
    exact .reports fails early
  | @reportsLate env fuel r fails late =>
    have same : ((executePendingJobLoop env fuel).bind fun finished =>
        if finished then (throwPendingJSException env).bind fun _ => .ret r else .ret r).bind
          (fun r => .ret (f r)) = (executePendingJobLoop env fuel).bind fun finished =>
        if finished then (throwPendingJSException env).bind fun _ => .ret (f r) else .ret (f r) := by
      rw [Prog.bind_assoc]
      congr 1
      funext finished
      cases finished with
      | true => exact Prog.bind_assoc _ _ _
      | false => rfl
    rw [same]
    exact .reportsLate fails late
  | @goesOn env fuel values r result fine calm =>
    have same : ((Wrapper.freeValues values).bind fun _ =>
        (executePendingJobLoop env fuel).bind fun finished =>
          if finished then result else (freeValue v).bind fun _ => .ret r).bind
          (fun r => .ret (f r)) = (Wrapper.freeValues values).bind fun _ =>
        (executePendingJobLoop env fuel).bind fun finished =>
          if finished then result.bind fun r => .ret (f r)
          else (freeValue v).bind fun _ => .ret (f r) := by
      rw [Prog.bind_assoc]
      congr 1
      funext _
      rw [Prog.bind_assoc]
      congr 1
      funext finished
      cases finished with
      | true => rfl
      | false => exact Prog.bind_assoc _ _ _
    rw [same]
    exact .goesOn fine (Prog.within_bind calm fun _ => trivial)

def Begins (jobsFirst : Bool) (q : Program R) : Prop :=
  (∃ e next, q = .enter e next ∧ e.evaluates = true ∧ ∀ v, WindsUp jobsFirst v (next (.value v))) ∨
  ∃ next, q = .prim .getException next ∧ ∀ a, Jobless (next a)

abbrev EvaluatesFirst (jobsFirst : Bool) (p : Program R) : Prop :=
  FirstAt Prim.takes (fun e => e.evaluates || e.isJob) (Begins jobsFirst) p

theorem evaluatesFirst_map {p : Program R} {f : R → S} (first : EvaluatesFirst jobsFirst p) :
    EvaluatesFirst jobsFirst (p.bind fun r => .ret (f r)) := by
  refine firstAt_bind first ?_ fun _ => trivial
  rintro q (⟨e, next, rfl, evaluates, continues⟩ | ⟨next, rfl, jobless⟩)
  · exact Or.inl ⟨e, _, rfl, evaluates, fun v => (continues v).map f⟩
  · exact Or.inr ⟨_, rfl, fun a => Prog.within_bind (jobless a) fun _ => trivial⟩

theorem evaluatesFirst_after {p : Program R} {f : R → Program S} (calm : Calm Steady p)
    (rest : ∀ r, EvaluatesFirst jobsFirst (f r)) : EvaluatesFirst jobsFirst (p.bind f) := by
  refine firstAt_after (Prog.within_mono calm ?_ ?_) rest
  · intro c may
    cases c <;> first | rfl | cases may
  · rintro e ⟨call, rfl, noJS⟩
    cases call <;> first | rfl | cases noJS | skip
    -- a script is only compiled
    simp only [EngineCall.runsJS] at noJS
    simp [ForeignCall.evaluates, ForeignCall.isJob, EngineCall.isJob, noJS]

theorem evaluatesFirst_nonNull {env : JNIEnv} {argument : Option JavaString} {message : String}
    {p : JavaString → Program Answer} (given : ∀ s, EvaluatesFirst jobsFirst (p s)) :
    EvaluatesFirst jobsFirst (nonNull env argument message p) := by
  cases argument with
  | none => exact evaluatesFirst_after ⟨rfl, fun _ => trivial⟩ fun _ => trivial
  | some s => exact given s

theorem calm_getStringUTFChars (env : JNIEnv) (s : JavaString) :
    Calm Steady (getStringUTFChars env s) := ⟨rfl, fun _ => trivial⟩

theorem continues_evaluated {env : JNIEnv} {fuel : Nat} {values : List JSValue} {r : R}
    {result : Program R} (calm : Calm Steady result) : WindsUp false v
      (if v.isException then (throwPendingJSException env).bind fun _ => .ret r
        else (Wrapper.freeValues values).bind fun _ => (executePendingJobLoop env fuel).bind fun finished =>
          if finished then result else (freeValue v).bind fun _ => .ret r) := by
  split
  next fails => exact .reports fails rfl
  next fine => exact .goesOn (Bool.eq_false_iff.2 fine) calm

theorem evaluatesFirst_evaluate (env : JNIEnv) (script fileName : JavaString) (fuel : Nat) :
    EvaluatesFirst false (Wrapper.evaluate env script fileName fuel) := by
  refine evaluatesFirst_after (calm_getStringUTFChars env script) fun script => ?_
  refine evaluatesFirst_after (calm_getStringUTFChars env fileName) fun fileName => ?_
  refine firstAt_enter rfl (Or.inl ⟨_, _, rfl, rfl, fun v => ?_⟩)
  exact @continues_evaluated _ v env fuel [] none _ (calm_globalResult steady_plain env v)

theorem evaluatesFirst_evaluateModule (env : JNIEnv) (script fileName : JavaString) (fuel : Nat) :
    EvaluatesFirst false (Wrapper.evaluateModule env script fileName fuel) := by
  refine evaluatesFirst_after (calm_getStringUTFChars env script) fun script => ?_
  refine evaluatesFirst_after (calm_getStringUTFChars env fileName) fun fileName => ?_
  refine firstAt_enter rfl (Or.inl ⟨_, _, rfl, rfl, fun v => ?_⟩)
  exact @continues_evaluated _ v env fuel [] none _ (calm_globalResult steady_plain env v)

theorem evaluatesFirst_call (env : JNIEnv) (func thisObj : Nat) (args : List (Option JavaObject))
    (fuel : Nat) : EvaluatesFirst false (Wrapper.call env func thisObj args fuel) := by
  refine evaluatesFirst_after (calm_of_marshals (marshals_callArguments steady_plain steady_store env args
    [] [])) ?_
  intro converted
  cases converted with
  | none => trivial
  | some converted =>
    refine firstAt_enter rfl (Or.inl ⟨_, _, rfl, rfl, fun v => ?_⟩)
    exact continues_evaluated (calm_toJavaObject steady_plain env _ v true)

theorem evaluatesFirst_execute (env : JNIEnv) (byteCode : List UInt8) (fuel : Nat) :
    EvaluatesFirst true (Wrapper.execute env byteCode fuel) := by
  refine evaluatesFirst_after ⟨⟨_, rfl, rfl⟩, fun _ => trivial⟩ fun obj => ?_
  split
  · have may : ∀ k : Kind, k.isLoop = false → NoLoop k := fun _ other => other
    have report : Issues NoLoop ((throwPendingJSException env).bind fun _ => .ret (none : Option JavaObject)) :=
      issues_reported (may _ rfl) (may _ rfl) env none
    exact firstAt_prim rfl (Or.inr ⟨_, rfl, (jobless_issues report).2⟩)
  · refine evaluatesFirst_after ⟨⟨_, rfl, rfl⟩, fun _ => trivial⟩ fun status => ?_
    split
    · trivial
    · refine firstAt_enter rfl (Or.inl ⟨_, _, rfl, rfl, fun v => ?_⟩)
      cases fails : v.isException with
      | true =>
        cases v with
        | exception => exact .reportsLate rfl rfl
        | _ => cases fails
      | false =>
        have goes : WindsUp true v ((Wrapper.freeValues []).bind fun _ =>
            (executePendingJobLoop env fuel).bind fun finished =>
              if finished then toJavaObject env obj v true else (freeValue v).bind fun _ => .ret none) :=
          .goesOn fails (calm_toJavaObject steady_plain env obj v true)
        simpa [Wrapper.freeValues, Answer.toValue, fails] using goes

theorem evaluatesFirst_program {op : NativeOp} (loops : op.hasLoop = true) (t : ThreadId) :
    EvaluatesFirst op.runsJobsFirst (op.program t) := by
  cases op with
  | evaluate script fileName fuel =>
    exact evaluatesFirst_nonNull fun script => evaluatesFirst_nonNull fun fileName =>
      evaluatesFirst_map (evaluatesFirst_evaluate _ script fileName fuel)
  | evaluateModule script fileName fuel =>
    exact evaluatesFirst_nonNull fun script => evaluatesFirst_nonNull fun fileName =>
      evaluatesFirst_map (evaluatesFirst_evaluateModule _ script fileName fuel)
  | call func thisObj args fuel => exact evaluatesFirst_map (evaluatesFirst_call _ func thisObj args fuel)
  | execute bytecode fuel =>
    cases bytecode with
    | none => trivial
    | some bytecode => exact evaluatesFirst_map (evaluatesFirst_execute _ bytecode fuel)
  | _ => cases loops

variable {w u s : World} {h : BridgeHistory}

theorem unfinished_main {op : NativeOp} {t : ThreadId} {next : Answer → Program Answer}
    (loops : op.hasLoop = true)
    (run : Unfinished bridge.meaning (op.program t) w h (.enter (.engine .jobFunc) next) u) :
    ∃ e a s, mainItem? h = some (.call e a s) := by
  rcases unfinished_firstAt (evaluatesFirst_program loops t) run with
    ⟨-, first⟩ | ⟨q, x, before, item, rest, begins, rfl, quiet, -, since⟩
  · obtain ⟨e, _, same, evaluates, -⟩ | ⟨_, impossible, -⟩ := first
    · cases same
      cases evaluates
    · cases impossible
  · have early : before.find? isMain = none := by
      apply List.find?_eq_none.2
      intro item member marked
      apply List.any_eq_false.1 quiet item member
      cases item with
      | prim c a x => exact marked
      | call e a x => exact Bool.or_eq_true_iff.2 (Or.inl marked)
    obtain ⟨e, k, rfl, evaluates, -⟩ | ⟨k, rfl, jobless⟩ := begins
    · rcases unfinished_enter since with ⟨impossible, -⟩ | ⟨a, s, later, same, -⟩
      · cases impossible
      · cases same
        have marked : isMain (.call e a s) = true := evaluates
        refine ⟨e, a, s, ?_⟩
        unfold mainItem?
        rw [List.find?_append, early, Option.none_or, List.find?_cons_of_pos marked]
    · rcases unfinished_prim since with ⟨impossible, -⟩ | ⟨a, s, later, same, since⟩
      · cases impossible
      · cases (unfinished_within (jobless a) since).1

end Evaluations
end QuickJSBridge
