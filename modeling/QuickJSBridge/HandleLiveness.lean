import QuickJSBridge.OperationSafety

/- Handles and the objects they denote. `values` holds one reference for each address, however
   many handles Java was given for it, and freeing any of them gives that reference up. A
   handle outlives it exactly when another handle to the same object is freed. -/
namespace QuickJSBridge
open HostProgram ReentrantMachine

section Steps
variable {held : Addr → Nat} {w w' : World}

theorem engineEvent_kept {e : EngineEvent} (kept : Kept held w)
    (acts : engineEvent w e = some w') : Kept held w' := by
  cases e with
  | alloc p cls => exact kept_alloc kept acts
  | dup p => exact kept_dup kept acts
  | drop p => exact kept_drop kept acts
  | revokeProxy p => exact kept_revokeProxy kept acts
  | throwValue v => exact kept_throwValue kept acts
  | catchException => exact kept_catchException kept acts
  | enqueueJob => cases acts; exact kept_congr kept rfl rfl rfl rfl rfl rfl
  | rejectPromise k reason => cases acts; exact kept_congr kept rfl rfl rfl rfl rfl rfl
  | attachHandler k => cases acts; exact kept_congr kept rfl rfl rfl rfl rfl rfl
  | libcRead r => cases acts; exact kept_congr kept rfl rfl rfl rfl rfl rfl

theorem javaExec_kept (c : JavaPrim) (kept : Kept held w) : Kept held (javaExec c w).2 := by
  cases c with
  | putCallFunction f => exact kept_congr kept rfl rfl rfl rfl rfl rfl
  | freeValueCalled id =>
    exact ⟨kept.covered, kept.global, kept.queue, fun h member mine unfreed =>
      kept.handles h (freed_or_same member unfreed) mine unfreed⟩

theorem event_kept {ev : Event} {ctx : Option ForeignCall} (kept : Kept held w)
    (acts : event ev ctx w = some w') : Kept held w' := by
  cases ev with
  | engine e =>
    cases ctx with
    | none => cases acts
    | some call =>
      cases call with
      | java f args => cases acts
      | engine call => exact engineEvent_kept kept (of_ite_some acts)
  | spawn t call =>
    cases of_ite_some acts
    exact kept_congr kept rfl rfl rfl rfl rfl rfl
  | javaStep t =>
    have acts := of_ite_some acts
    split at acts
    next c next frames _ =>
      cases acts
      exact kept_congr (javaExec_kept c kept) rfl rfl rfl rfl rfl rfl
    next => cases acts
  | retire t =>
    have acts := of_ite_some acts
    split at acts
    next =>
      cases acts
      exact kept_congr kept rfl rfl rfl rfl rfl rfl
    next => cases acts

theorem finishNative_kept {t : ThreadId} {a : Answer} (kept : Kept held w)
    (done : finishNative t a w = some w') : Kept held w' := by
  unfold finishNative at done
  split at done
  next =>
    cases done
    exact kept_congr kept rfl rfl rfl rfl rfl rfl
  next => cases done

end Steps

section Natives
variable {below : Addr → Nat} {w : World} {t : ThreadId}

theorem secure_javaResult {p : Program (Option JavaObject)}
    (safe : Secure below (Leaves below) p w) : Secure below (Leaves below) (javaResult p) w :=
  Bridge.safe_bind safe

theorem secure_unitResult {p : Program Unit} (safe : Secure below (Leaves below) p w) :
    Secure below (Leaves below) (unitResult p) w :=
  Bridge.safe_bind safe

theorem secure_nonNull {env : JNIEnv} {argument : Option JavaString} {message : String}
    {p : JavaString → Program Answer} (kept : Kept below w)
    (safe : ∀ s, Secure below (Leaves below) (p s) w) :
    Secure below (Leaves below) (nonNull env argument message p) w := by
  cases argument with
  | none =>
    exact Bridge.safe_bind (secure_act rfl (kept_nothing kept) fun w₁ kept₁ => kept_anything kept₁)
  | some s => exact safe s

def NativeOp.freedAddress : NativeOp → Option Nat
  | .freeValue p => some p
  | _ => none

theorem program_secure {op : NativeOp} (kept : Kept below w)
    (unaliased : ∀ p, op.freedAddress = some p → unaliasedAt p w = true) :
    Secure below (Leaves below) (op.program t) w := by
  cases op with
  | createContext => exact secure_unitResult (create_secure kept)
  | runGC =>
    exact secure_unitResult (secure_enter (kept_plain rfl (kept_nothing kept)) fun w₁ kept₁ =>
      kept_anything kept₁)
  | evaluate script fileName fuel =>
    exact secure_nonNull kept fun script => secure_nonNull kept fun fileName =>
      secure_javaResult (evaluate_secure kept)
  | evaluateModule script fileName fuel =>
    exact secure_nonNull kept fun script => secure_nonNull kept fun fileName =>
      secure_javaResult (evaluateModule_secure kept)
  | compile source fileName isModule =>
    exact secure_nonNull kept fun source => secure_nonNull kept fun fileName =>
      Bridge.safe_bind (compile_secure kept)
  | execute bytecode fuel =>
    cases bytecode with
    | none => trivial
    | some bytecode => exact secure_javaResult (execute_secure kept)
  | getGlobalObject => exact secure_javaResult (getGlobalObject_secure kept)
  | getProperty objValue name =>
    exact secure_nonNull kept fun name => secure_javaResult (getProperty_secure kept)
  | setProperty objValue name value =>
    exact secure_nonNull kept fun name => secure_unitResult (setProperty_secure kept)
  | length objValue => exact Bridge.safe_bind (length_secure kept)
  | get objValue index => exact secure_javaResult (get_secure kept)
  | set objValue value index => exact secure_unitResult (set_secure kept)
  | freeValue p => exact secure_unitResult (freeValue_secure kept (unaliased p rfl))
  | call func thisObj args fuel => exact secure_javaResult (call_secure kept)
  | stringify objValue => exact secure_javaResult (jsonStringify_secure kept)
  | parseJSON json => exact secure_nonNull kept fun json => secure_javaResult (parseJSON_secure kept)

end Natives

section Runs

def nextNative (w : World) (t : ThreadId) : Option NativeOp :=
  match w.tasks t with
  | .ready (.enter op _) :: _ => some op
  | _ => none

/-- When the native freeValue starts for an address, no other handle that an operation
    returned and Java has not freed stands for the object there. -/
def freesUnaliased (m : BridgeMoment) : Bool :=
  match m.action with
  | .start (.native t) =>
    match (nextNative m.before t).bind NativeOp.freedAddress with
    | some p => unaliasedAt p m.before
    | none => true
  | _ => true

theorem start_secure {below : Addr → Nat} {o : BridgeOp} {ctx : Option ForeignCall}
    {w w' : World} {p : Program Answer} (kept : Kept below w)
    (permitted : freesUnaliased ⟨.start o, ctx, w⟩ = true)
    (starts : start o ctx w = some (w', p)) :
    HandlesLive w' ∧
      Secure below (fun a t => ∀ t', finish o a t = some t' → Kept below t') p w' := by
  cases o with
  | native t =>
    have starts' : startNative t w = some (w', p) := starts
    unfold startNative at starts'
    split at starts'
    next op next frames ready =>
      split at starts'
      next => cases starts'
      next monitor entered =>
        cases of_ite_some starts'
        have kept' : Kept below
            (setFrames { w with monitor := monitor } t (.waiting next :: frames)) :=
          kept_congr kept rfl rfl rfl rfl rfl rfl
        have unaliased : ∀ p, op.freedAddress = some p → unaliasedAt p w = true := by
          intro p freed
          simpa [freesUnaliased, nextNative, ready, freed] using permitted
        refine ⟨kept_live kept', Bridge.safe_mono (fun a u left u' done => ?_)
          (program_secure kept' unaliased)⟩
        exact finishNative_kept left done
    next => cases starts'
  | jsFnCallback func thisObj argv =>
    have starts' : startCallback func thisObj argv ctx w = some (w', p) := starts
    unfold startCallback at starts'
    split at starts'
    next call =>
      cases of_ite_some starts'
      refine ⟨kept_live kept, Bridge.safe_bind ?_⟩
      refine Bridge.safe_mono (fun v u owns => ?_) (jsFnCallback_secure kept)
      intro u' done
      exact kept_take owns done
    next => cases starts'

theorem guarded : bridge.Guarded Kept HandlesLive (freesUnaliased · = true) where
  seen _ _ kept := kept_live kept
  event _ _ _ _ _ kept _ acts := event_kept kept acts
  program _ _ _ _ _ _ kept permitted starts := start_secure kept permitted starts

theorem kept_fresh (globalObj : Addr) (jvm : List UInt8 → JavaString) :
    Kept 0 (World.fresh globalObj jvm) where
  covered p := by
    by_cases same : p = globalObj
    · subst same
      simp [World.engineRefs, World.refs, World.valuesRefs, World.fresh]
    · simp [World.engineRefs, World.refs, World.valuesRefs, World.fresh, same]
  global p := by
    by_cases same : p = globalObj
    · subst same
      simp [World.reserved, World.engineRefs, World.fresh]
    · simp [World.reserved, World.fresh, same]
  queue := rfl
  handles := fun _ member => nomatch member

/-- In a run whose frees are all of objects without another unfreed handle, every handle
    denotes its object until it is freed, at every moment. -/
theorem handles_stay_live {globalObj : Addr} {jvm : List UInt8 → JavaString}
    {labels : List BridgeLabel} {c : BridgeConfig}
    (unaliased : bridge.Respects (freesUnaliased · = true) labels (initial globalObj jvm))
    (ran : bridge.run labels (initial globalObj jvm) = some c) : HandlesLive c.state :=
  Bridge.run_guarded guarded (kept_fresh globalObj jvm) unaliased ran

end Runs

section Aliases

/-- A Java client calls freeValue at most once on each handle. -/
def freedOnce (m : BridgeMoment) : Bool :=
  match m.action with
  | .event (.javaStep t) =>
    match m.before.tasks t with
    | .ready (.prim (.freeValueCalled id) _) :: _ => m.before.handles[id]?.all (!·.freed)
    | _ => true
  | _ => true

/-- Thread 0 evaluates a script whose value is the plain object at the address, after what
    the engine does inside. Whether `values` knows the address decides if the reference is
    given back. -/
def evaluatesTo (p : Addr) (inside : List EngineEvent) (known : Bool) : List BridgeLabel :=
  ([.event (.spawn 0 (.evaluate (some []) (some []) false 1)), .call (.native 0), .tau, .tau,
    .tau] : List BridgeLabel) ++ inside.map (fun e => .event (.engine e)) ++
  ([.answer (.value (.object p)), .tau, .tau, .tau, .tau, .tau, .tau, .tau, .answer (.int 0),
    .tau, .tau, .tau] : List BridgeLabel) ++ (if known then [.answer .unit] else [] : List BridgeLabel) ++
  ([.tau, .answer .unit, .tau, .event (.retire 0)] : List BridgeLabel)

/-- Thread 0 calls freeValue on a handle whose address `values` knows. -/
def freesHandle (id : Nat) (p : Addr) : List BridgeLabel :=
  [.event (.spawn 0 (.freeValue (some (.handle id .jsObject p 0)))), .event (.javaStep 0),
    .call (.native 0), .tau, .tau, .answer .unit, .tau, .event (.retire 0)]

/-- Two scripts return one object, the second taking it out of the global that held it; then
    the first handle is freed. -/
def aliasedFree : List BridgeLabel :=
  constructing ++ evaluatesTo 10 [.alloc 10 (some .plain), .dup 10] false ++
    evaluatesTo 10 [] true ++ freesHandle 0 10

/-- Freeing once is not enough: the handle that is left denotes nothing. -/
theorem aliased_handle_dies : ¬ ∀ (globalObj : Addr) (jvm : List UInt8 → JavaString)
    (labels : List BridgeLabel) (c : BridgeConfig),
    bridge.Respects (freedOnce · = true) labels (initial globalObj jvm) →
    bridge.run labels (initial globalObj jvm) = some c → HandlesLive c.state := by
  intro alive
  have once : (bridge.history aliasedFree (initial 1 fun _ => [])).all freedOnce = true := by decide
  have left : (bridge.run aliasedFree (initial 1 fun _ => [])).map (fun c =>
      (c.state.handles[1]?, c.state.heap 10)) =
      some (some ⟨.jsObject, 10, 0, 2, false, false⟩, none) := by decide
  obtain ⟨c, ran, state⟩ := Option.map_eq_some_iff.1 left
  obtain ⟨second, gone⟩ := Prod.mk.inj state
  obtain ⟨cell, here, -⟩ := alive 1 _ aliasedFree c (Bridge.respects_of_all once) ran _
    (List.mem_of_getElem? second) rfl rfl
  cases gone.symm.trans here

/-- With an object each, freeing the first handle leaves the second alone. -/
def separateFree : List BridgeLabel :=
  constructing ++ evaluatesTo 10 [.alloc 10 (some .plain)] false ++
    evaluatesTo 11 [.alloc 11 (some .plain)] false ++ freesHandle 0 10

theorem separate_handle_lives : ∃ c, bridge.run separateFree (initial 1 fun _ => []) = some c ∧
    c.state.handles.map Handle.freed = [true, false] ∧ HandlesLive c.state := by
  have state : (bridge.run separateFree (initial 1 fun _ => [])).map (fun c =>
      c.state.handles.map Handle.freed) = some [true, false] := by decide
  obtain ⟨c, ran, freed⟩ := Option.map_eq_some_iff.1 state
  exact ⟨c, ran, freed, handles_stay_live (Bridge.respects_of_all (by decide)) ran⟩

end Aliases
end QuickJSBridge
