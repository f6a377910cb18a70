import QuickJSBridge.MainEvaluations

/- When pending jobs run. Every evaluate, call and execute ends with the job loop, also those
   that a Java callback makes while the script that called it is still on the stack. -/
namespace QuickJSBridge
open HostProgram ReentrantMachine

section Discipline

def BridgeOp.isNative : BridgeOp → Bool
  | .native _ => true
  | .jsFnCallback _ _ _ => false

abbrev MayTake (o : BridgeOp) (c : Prim) : Prop := c = .takeJob → o.isNative = true
abbrev MayRun (o : BridgeOp) (e : ForeignCall) : Prop := e = .engine .jobFunc → o.isNative = true

theorem start_bounded {o : BridgeOp} {ctx : Option ForeignCall} {w w' : World}
    {p : Program Answer} (starts : start o ctx w = some (w', p)) :
    Bridge.Bounded MayTake MayRun o p := by
  cases o with
  | native t =>
    exact Prog.within_mono (Prog.within_all p) (fun _ _ _ => rfl) fun _ _ _ => rfl
  | jsFnCallback func thisObj argv =>
    simp only [start, startCallback] at starts
    split at starts
    next =>
      cases of_ite_some starts
      have may : ∀ k : Kind, k.isLoop = false → NoLoop k := fun _ ok => ok
      have within : (jsFnCallback (.object func) thisObj argv).Within (fun c => NoLoop c.kind)
          (JobGuarded NoLoop) :=
        within_jsFnCallback (may _ rfl) (may _ rfl) (may _ rfl) (may _ rfl) _ _ _
      refine Prog.within_bind (Prog.within_mono within ?_ ?_) fun _ => trivial
      · rintro c other rfl
        cases other
      · intro e guarded same
        cases guarded same
    next => cases starts

theorem run_disciplined {globalObj : Addr} {jvm : List UInt8 → JavaString}
    {labels : List BridgeLabel} {c : BridgeConfig}
    (ran : bridge.run labels (initial globalObj jvm) = some c) :
    Bridge.BoundedConfig MayTake MayRun c ∧ bridge.WellNested c := by
  have always : bridge.Respects (fun _ => True) labels (initial globalObj jvm) :=
    fun _ _ => trivial
  have first : Bridge.BoundedConfig MayTake MayRun (initial globalObj jvm) ∧
      bridge.WellNested (initial globalObj jvm) := ⟨trivial, trivial⟩
  apply Bridge.run_invariant (fun c => Bridge.BoundedConfig MayTake MayRun c ∧ bridge.WellNested c)
    _ first always ran
  intro l c c' held _ taken
  constructor
  · exact Bridge.step_bounded held.1 (fun _ _ _ _ _ starts _ => start_bounded starts) taken
  · exact Bridge.step_wellNested held.2 taken

end Discipline

section Jobs

def runsJob : Control Prim ForeignCall Answer → Bool
  | .native (.enter (.engine .jobFunc) _) => true
  | _ => false

theorem startNative_program {t : ThreadId} {w s : World} {p : Program Answer}
    (starts : startNative t w = some (s, p)) : ∃ op : NativeOp, p = op.program t := by
  unfold startNative at starts
  split at starts
  next op next frames _ =>
    split at starts
    next => cases starts
    next =>
      cases of_ite_some starts
      exact ⟨op, rfl⟩
  next => cases starts

theorem jobless_program {op : NativeOp} (other : op.hasLoop = false) (t : ThreadId) :
    Jobless (op.program t) := by
  have may : ∀ k : Kind, k.isLoop = false → NoLoop k := fun _ ok => ok
  apply jobless_issues
  cases made : op.isConstructor with
  | false =>
    apply issues_program (may _ rfl) (may _ rfl) made
    · exact fun _ => may _ rfl
    · intro loops
      cases other.symm.trans loops
    · intro loops
      cases other.symm.trans loops
  | true =>
    cases op <;> cases made
    apply issues_unitResult
    refine issues_bind (issues_act (may _ rfl)) fun _ => ?_
    refine issues_bind (issues_act (may _ rfl)) fun _ => ?_
    refine issues_bind (issues_enter rfl) fun _ => ?_
    refine issues_bind (issues_evalBufModule (may _ rfl) (may _ rfl) _ _) fun _ => ?_
    exact issues_bind (issues_act (may _ rfl)) fun _ => issues_act (may _ rfl)

/-- The native method that runs was started in this run, and its main evaluation has been
    answered. -/
def ScriptEnded (c₀ : BridgeConfig) (labels : List BridgeLabel) (c : BridgeConfig) : Prop :=
  ∃ t rest first second w s h q, ∃ op : NativeOp,
    c.stack = .caller (.native t) :: rest ∧ c.control = .native q ∧
    labels = first ++ .call (.native t) :: second ∧
    bridge.run first c₀ = some ⟨w, .outside, rest⟩ ∧ startNative t w = some (s, op.program t) ∧
    Unfinished bridge.meaning (op.program t) s h q c.state ∧ op.hasLoop = true ∧ ∃ e a u,
      mainItem? h = some (.call e a u)

/-- A job is run by a native method whose own script has ended. Every engine call still active
    then waits for a Java callback it made: there are as many as there are callbacks. -/
theorem job_after_script {globalObj : Addr} {jvm : List UInt8 → JavaString}
    {labels : List BridgeLabel} {c : BridgeConfig}
    (ran : bridge.run labels (initial globalObj jvm) = some c) (runs : runsJob c.control = true) :
    ScriptEnded (initial globalObj jvm) labels c ∧
    (∀ above e k below, c.stack = above ++ .pending (.engine e) k :: below →
      ∃ above' func thisObj argv, above = above' ++ [.caller (.jsFnCallback func thisObj argv)]) ∧
    bridge.activations c.stack = bridge.callbacks c.stack := by
  obtain ⟨bounded, nested⟩ := run_disciplined ran
  obtain ⟨next, running⟩ : ∃ next, c.control = .native (.enter (.engine .jobFunc) next) := by
    unfold runsJob at runs
    split at runs
    next next same => exact ⟨next, same⟩
    next => cases runs
  obtain ⟨o, rest, top, native⟩ := Bridge.call_permitted bounded running
  have owner : ∃ t, o = .native t := by
    cases o with
    | native t => exact ⟨t, rfl⟩
    | jsFnCallback func thisObj argv => cases native rfl
  obtain ⟨t, rfl⟩ := owner
  refine ⟨?_, ?_, Bridge.activations_eq_callbacks nested running⟩
  · obtain ⟨h, first, second, w, s, p, split, early, starts, since⟩ :=
      (Bridge.run_underWay ran).running running top
    replace starts : startNative t w = some (s, p) := starts
    obtain ⟨op, rfl⟩ := startNative_program starts
    cases loops : op.hasLoop with
    | true =>
      exact ⟨t, rest, first, second, w, s, h, _, op, top, running, split, early, starts, since, loops,
        unfinished_main loops since⟩
    | false => cases (unfinished_within (jobless_program loops t) since).1
  · intro above e k below split
    unfold Bridge.WellNested at nested
    rw [running, split] at nested
    have covered : above ≠ [] := by
      rintro rfl
      exact nested.elim
    obtain ⟨above', o, rfl, side⟩ := Bridge.caller_above nested covered
    cases o with
    | native t' => cases side
    | jsFnCallback func thisObj argv => exact ⟨above', func, thisObj, argv, rfl⟩

/-- Thread 0 evaluates a script that enqueues a job. -/
def enqueues : List BridgeLabel :=
  [.event (.spawn 0 (.evaluate (some []) (some []) false 1)), .call (.native 0), .tau, .tau,
    .tau, .event (.engine .enqueueJob)]

/-- The evaluation ends, and its job loop takes the job. -/
def takesJob : List BridgeLabel := [.answer (.value .undefined), .tau, .tau, .tau]

theorem outermost_job : ∃ c : BridgeConfig,
    bridge.run (constructing ++ enqueues ++ takesJob) (initial 1 fun _ => []) = some c ∧
    runsJob c.control = true ∧
    ScriptEnded (initial 1 fun _ => []) (constructing ++ enqueues ++ takesJob) c ∧
    (∀ above e k below, c.stack = above ++ .pending (.engine e) k :: below →
      ∃ above' func thisObj argv, above = above' ++ [.caller (.jsFnCallback func thisObj argv)]) ∧
    bridge.activations c.stack = bridge.callbacks c.stack := by
  have state : (bridge.run (constructing ++ enqueues ++ takesJob) (initial 1 fun _ => [])).map
      (fun c => runsJob c.control) = some true := by decide
  obtain ⟨c, ran, runs⟩ := Option.map_eq_some_iff.1 state
  exact ⟨c, ran, runs, job_after_script ran runs⟩

def definesCallback (f : JSCallFunction) : List BridgeLabel :=
  [.event (.spawn 0 .getGlobalObject), .call (.native 0), .tau, .tau, .tau, .answer .unit, .tau,
    .event (.retire 0),
    .event (.spawn 0 (.setProperty (some (.handle 0 .jsObject 1 0)) (some []) (some (.callFunction f)))),
    .event (.javaStep 0), .call (.native 0), .tau, .tau, .event (.engine (.alloc 20 (some .function))),
    .answer (.value (.object 20)), .tau, .tau, .tau, .answer (.int 1), .tau, .answer (.int 1), .tau,
    .event (.retire 0)]

/-- A script enqueues a job and calls the callback, which evaluates another script: the job
    runs in the middle of the first. -/
theorem nested_job_interrupts : ¬ ∀ (globalObj : Addr) (jvm : List UInt8 → JavaString)
    (labels : List BridgeLabel) (c : BridgeConfig),
    bridge.run labels (initial globalObj jvm) = some c → runsJob c.control = true →
    bridge.activations c.stack = 0 := by
  intro complete
  have state : (bridge.run (constructing ++ definesCallback ⟨0, 7⟩ ++ enqueues ++
      [.call (.jsFnCallback 20 .undefined []), .tau, .tau, .tau, .tau] ++ enqueues ++ takesJob)
      (initial 1 fun _ => [])).map
      (fun c => (runsJob c.control, bridge.activations c.stack)) = some (true, 1) := by decide
  obtain ⟨c, ran, state⟩ := Option.map_eq_some_iff.1 state
  obtain ⟨runs, active⟩ := Prod.mk.inj state
  have none := complete 1 _ _ c ran runs
  omega

end Jobs
end QuickJSBridge
