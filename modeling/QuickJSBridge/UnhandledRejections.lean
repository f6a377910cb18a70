import QuickJSBridge.JobQueue

/- Promises that are rejected and find no handler. The wrapper asks its queue of recorded
   rejections after the job loop, but the tracker that is installed records none. -/
namespace QuickJSBridge
open HostProgram ReentrantMachine

section Reports

def rejectionHeader : Piece := .literal "UnhandledPromiseRejectionException: "

def TextOf (h : BridgeHistory) (reason : JSValue) (bytes : List UInt8) : Prop :=
  ∃ v, (v = reason ∨
      ∃ s, .call (.engine (.getPropertyStr reason (ascii "message"))) (.value v) s ∈ h) ∧
    ∃ s, .call (.engine (.toCString v)) (.text (some bytes)) s ∈ h

def ThrowsRejections (h : BridgeHistory) (text : List Piece) : Prop :=
  ∃ env a s, .prim (.throw env (.quickJS (rejectionHeader :: text))) a s ∈ h

def Surfaces (h : BridgeHistory) (u : World) (r : Rejection) : Prop :=
  ∃ text bytes, ThrowsRejections h text ∧
    u.javaException = some (.quickJS (rejectionHeader :: text)) ∧ TextOf h r.reason bytes ∧
    .js bytes ∈ text

/-- Promises rejected since a state, and not handled in another. -/
def unhandledSince (w s : World) : List Rejection :=
  s.unhandled.filter fun r => r ∉ w.unhandled

/-- The state in which the job loop has run the pending jobs. -/
def settledState? : BridgeItem → Option World
  | .prim .jobListEmpty (.bool true) s => some s
  | _ => none

/-- Once they have run, the unhandled rejections of the operation are reported, and without
    one nothing is reported as such. -/
def RejectionsSurface (w : World) (h : BridgeHistory) (u : World) : Prop :=
  ∀ s ∈ h.filterMap settledState?, (∀ r ∈ unhandledSince w s, Surfaces h u r) ∧
    (unhandledSince w s = [] → ∀ text, ¬ ThrowsRejections h text)

theorem path_texts {w s : World} {h : BridgeHistory} {φ : Phase}
    (path : Path bridge.meaning Moves .running w h φ s) {env : JNIEnv} {text : List Piece}
    {a : Answer} {u : World} (throws : .prim (.throw env (.quickJS text)) a u ∈ h) :
    beginsWithText text = true := by
  induction path with
  | nil => cases throws
  | snoc path happens may ih =>
    rcases List.mem_append.1 throws with earlier | last
    · exact ih earlier
    · cases List.mem_singleton.1 last
      cases may with
      | steady φ may => cases may
      | throw begins => exact begins

end Reports

section Operations

/-- That is so exactly if every rejection has found its handler by then. -/
theorem rejections_surface_iff {globalObj : Addr} {jvm : List UInt8 → JavaString}
    {labels : List BridgeLabel} {c : BridgeConfig}
    (ran : bridge.run labels (initial globalObj jvm) = some c) {op : NativeOp}
    (made : op.isConstructor = false) {t : ThreadId} {trace : BridgeHistory} {a : Answer}
    {u : World} (run : Exec bridge.meaning (op.program t) c.state trace (.returned a) u) :
    RejectionsSurface c.state trace u ↔
      ∀ s ∈ trace.filterMap settledState?, unhandledSince c.state s = [] := by
  obtain ⟨φ, -, path, -⟩ := exec_course made (reached_rejections ran) run
  have never : ∀ text, ¬ ThrowsRejections trace text := by
    rintro text ⟨env, b, v, throws⟩
    cases path_texts path throws
  constructor
  · intro surface s settled
    apply List.eq_nil_iff_forall_not_mem.2
    intro r since
    obtain ⟨text, -, throws, -⟩ := (surface s settled).1 r since
    exact never text throws
  · intro none s settled
    rw [none s settled]
    exact ⟨nofun, fun _ => never⟩

/-- The script rejects a promise, and a job of it attaches a handler. -/
theorem handled_rejection_silent : ∃ (c : BridgeConfig) (trace : BridgeHistory) (a : Answer)
    (u : World), bridge.run (entersEvaluate 2) (initial 1 fun _ => []) = some c ∧
    Exec bridge.meaning ((NativeOp.evaluate (some []) (some []) 2).program 0) c.state trace
      (.returned a) u ∧
    (RejectionsSurface c.state trace u ↔
      ∀ s ∈ trace.filterMap settledState?, unhandledSince c.state s = []) := by
  have body : ∃ c, bridge.run (entersEvaluate 2) (initial 1 fun _ => []) = some c ∧
      Can bridge.meaning ((NativeOp.evaluate (some []) (some []) 2).program 0) [] c.state
        fun _ _ _ => True := by
    refine ⟨_, rfl, ?_⟩
    refine can_prim rfl (can_prim rfl ?_)
    refine can_enter (a := .value .undefined) ⟨_, _, [.event (.engine (.rejectPromise 5 .undefined)),
      .event (.engine .enqueueJob)], rfl, rfl, rfl⟩ ?_
    -- the first round of the loop
    refine can_prim rfl (can_prim rfl (can_prim rfl ?_))
    refine can_enter (a := .value .undefined)
      ⟨_, _, [.event (.engine (.attachHandler 5))], rfl, rfl, rfl⟩ ?_
    -- the second
    refine can_prim rfl (can_prim rfl (can_prim rfl (can_prim rfl ?_)))
    refine can_enter (a := .unit) ⟨_, _, [], rfl, rfl, rfl⟩ ?_
    exact can_ret trivial
  obtain ⟨c, ran, a, trace, u, run, -⟩ := body
  exact ⟨c, trace, a, u, ran, run, rejections_surface_iff ran rfl run⟩

/-- The script rejects a promise that nobody handles, and its evaluation succeeds. -/
theorem unhandled_rejection_lost : ¬ ∀ (globalObj : Addr) (jvm : List UInt8 → JavaString)
    (labels : List BridgeLabel) (c : BridgeConfig) (op : NativeOp) (t : ThreadId)
    (trace : BridgeHistory) (a : Answer) (u : World),
    bridge.run labels (initial globalObj jvm) = some c → op.isConstructor = false →
    c.stack = [.caller (.native t)] →
    Exec bridge.meaning (op.program t) c.state trace (.returned a) u →
    RejectionsSurface c.state trace u := by
  intro complete
  have body : ∃ c, bridge.run (entersEvaluate 1) (initial 1 fun _ => []) = some c ∧
      c.stack = [.caller (.native 0)] ∧
      Can bridge.meaning ((NativeOp.evaluate (some []) (some []) 1).program 0) [] c.state
        fun _ trace u => u.javaException = none ∧ ∃ s ∈ trace.filterMap settledState?,
          (⟨5, .undefined⟩ : Rejection) ∈ unhandledSince c.state s := by
    refine ⟨_, rfl, rfl, ?_⟩
    refine can_prim rfl (can_prim rfl ?_)
    refine can_enter (a := .value .undefined)
      ⟨_, _, [.event (.engine (.rejectPromise 5 .undefined))], rfl, rfl, rfl⟩ ?_
    refine can_prim rfl (can_prim rfl (can_prim rfl (can_prim rfl (can_prim rfl ?_))))
    refine can_enter (a := .unit) ⟨_, _, [], rfl, rfl, rfl⟩ ?_
    exact can_ret ⟨rfl, _, List.mem_singleton.2 rfl, List.mem_filter.2 ⟨List.mem_cons_self, rfl⟩⟩
  obtain ⟨c, ran, outermost, a, trace, u, run, quiet, s, settled, since⟩ := body
  have surface := complete 1 _ _ c _ 0 trace a u ran rfl outermost run
  obtain ⟨text, bytes, -, pending, -⟩ := (surface s settled).1 _ since
  cases quiet.symm.trans pending

end Operations
end QuickJSBridge
