import QuickJSBridge.AwaitedUses
import QuickJSBridge.CallbackRegistry

/- Callbacks that operations under way rely on. Native code makes a function of a callback with the
   hash code as its id and leaves the registration to its caller, so that between the two the
   map has to keep an entry no function needs yet. -/
namespace QuickJSBridge
open HostProgram ReentrantMachine

section Awaited

def NativeOp.arguments : NativeOp → List (Option JavaObject)
  | .setProperty _ _ value | .set _ value _ => [value]
  | .call _ _ args _ => args
  | _ => []

def Prim.answersHash : Prim → Answer → Prop
  | .hashCode _ f, a => a.toInt = f.hashCode
  | _, _ => True

def storing (f : JSCallFunction) : Watch Prim ForeignCall Answer where
  answers := Prim.answersHash
  uses c := ∃ v id, c = .setFuncCallback v id f
  calls _ := False
  secures c := c = .putCallFunction f
  securedBy _ := False

def passing (f : JSCallFunction) : Watch JavaPrim NativeOp Answer where
  answers _ _ := True
  uses _ := False
  calls op := some (.callFunction f) ∈ op.arguments
  secures c := c = .putCallFunction f
  securedBy _ := False

def misnumbering : Watch Prim ForeignCall Answer where
  answers := Prim.answersHash
  uses c := ∃ v id f, c = .setFuncCallback v id f ∧ id ≠ f.hashCode
  calls _ := False
  secures _ := False
  securedBy _ := False

def JavaFrame.Spares (W : Watch JavaPrim NativeOp Answer) : JavaFrame → Prop
  | .ready p => Prog.Spares W p fun _ => True
  | .waiting next => ∀ a, Prog.Spares W (next a) fun _ => True

def SparesCallback (c : BridgeConfig) (f : JSCallFunction) : Prop :=
  Bridge.Spared (storing f) c ∧ ∀ t, ∀ frame ∈ c.state.tasks t, frame.Spares (passing f)

def Awaited (c : BridgeConfig) (f : JSCallFunction) : Prop := ¬ SparesCallback c f

def Made (w : World) (f : JSCallFunction) : Prop := ∃ p id, w.registry.callbackAt p = some ⟨id, f⟩

/-- What the map needs. JSArray.set is only used for a callback that is registered; no callback
    is registered while another one with its hash code is in use; and no function is destroyed
    while another function, or an operation under way, needs a callback with the hash code of
    its own. -/
structure KeepsRegistry (c : BridgeConfig) (m : BridgeMoment) : Prop where
  set : ∀ t jsArray f index, m.action = .event (.spawn t (.set jsArray (some (.callFunction f)) index)) →
    c.state.callFunctionMap f.hashCode = some f
  put : ∀ f, change m = .put f → ∀ g, Made c.state g ∨ Awaited c g → g.hashCode = f.hashCode → g = f
  destroy : ∀ p id f, change m = .destroy p → c.state.registry.callbackAt p = some ⟨id, f⟩ →
    (∀ q id' g, q ≠ p → c.state.registry.callbackAt q = some ⟨id', g⟩ → g.hashCode ≠ f.hashCode) ∧
    ∀ g, Awaited c g → g.hashCode ≠ f.hashCode

end Awaited

section Programs
variable {W : Watch Prim ForeignCall Answer} {R : Type}

def Kind.stores : Kind → Bool
  | .store => true
  | _ => false

def NoStore (k : Kind) : Prop := k.stores = false

variable (hash : W.answers = Prim.answersHash) (other : ∀ c : Prim, NoStore c.kind → ¬ W.uses c)
  (uncalled : ∀ e, ¬ W.calls e)

include other uncalled in
theorem secures_issues {p : Program R} (issues : Issues NoStore p) : p.Spares W fun _ => True :=
  Prog.spares_within issues other fun e _ => uncalled e

include hash other uncalled in
theorem secures_toJSValue (env : JNIEnv) {o : Option JavaObject}
    (fine : ∀ f v, o = some (.callFunction f) → ¬ W.uses (.setFuncCallback v f.hashCode f)) :
    (toJSValue env o).Spares W fun _ => True := by
  have one : ∀ {c : Prim}, NoStore c.kind → (act c).Spares W fun _ => True :=
    fun may => secures_issues other uncalled (issues_act may)
  have value : ∀ {e : EngineCall}, e.isJob = false → (enterValue e).Spares W fun _ => True :=
    fun noJob => secures_issues other uncalled (issues_enterValue noJob)
  cases o with
  | none => trivial
  | some o =>
    cases o with
    | string s => exact Or.inr ⟨other _ rfl, fun _ _ => value rfl⟩
    | long n =>
      refine Prog.spares_after (one rfl) fun _ => ?_
      split
      · exact value rfl
      · trivial
    | callFunction f =>
      refine Prog.spares_after (value rfl) fun result => ?_
      refine Prog.spares_bind (M := fun id => id = f.hashCode) ?_ ?_
      · refine Or.inr ⟨other _ rfl, fun a may => ?_⟩
        rw [hash] at may
        exact may
      · rintro id rfl
        exact Or.inr ⟨fine f result rfl, fun _ _ => trivial⟩
    | _ => exact Prog.spares_after (one rfl) fun _ => trivial

include hash other uncalled in
theorem secures_callArguments (env : JNIEnv) {args : List (Option JavaObject)}
    (fine : ∀ f v, some (.callFunction f) ∈ args → ¬ W.uses (.setFuncCallback v f.hashCode f))
    (arguments freeArguments : List JSValue) :
    (Wrapper.callArguments env args arguments freeArguments).Spares W fun _ => True := by
  induction args generalizing arguments freeArguments with
  | nil => trivial
  | cons arg args ih =>
    refine Prog.spares_after (secures_issues other uncalled (issues_ask rfl)) fun pending => ?_
    split
    · trivial
    · refine Prog.spares_after (secures_toJSValue hash other uncalled env ?_) fun jsArg => ?_
      · rintro f v rfl
        exact fine f v List.mem_cons_self
      · split
        · trivial
        · exact ih (fun f v later => fine f v (List.mem_cons_of_mem _ later)) _ _

include hash other uncalled in
theorem secures_program {op : NativeOp}
    (fine : ∀ f v, some (.callFunction f) ∈ op.arguments → ¬ W.uses (.setFuncCallback v f.hashCode f))
    (t : ThreadId) : (op.program t).Spares W fun _ => True := by
  have may : ∀ k : Kind, k.stores = false → NoStore k := fun _ ok => ok
  have plain : NoStore .plain := may _ rfl
  have rest : ∀ {R : Type} {p : Program R}, Issues NoStore p → p.Spares W fun _ => True :=
    fun issues => secures_issues other uncalled issues
  cases made : op.isConstructor with
  | true =>
    cases op <;> cases made
    rw [createContext_program]
    refine Or.inr ⟨other _ rfl, fun _ _ => Or.inr ⟨other _ rfl, fun _ _ => ?_⟩⟩
    refine Prog.spares_after (rest ?_) fun _ =>
      Or.inr ⟨other _ rfl, fun _ _ => Or.inr ⟨other _ rfl, fun _ _ => trivial⟩⟩
    exact Prog.within_bind (issues_enter rfl) fun _ => issues_evalBufModule plain (may _ rfl) _ _
  | false =>
    cases converts : op.converts with
    | false =>
      have none : op.converts = true → NoStore .store := by rw [converts]; nofun
      exact rest (issues_program plain (may _ rfl) made none (fun _ => may _ rfl) (fun _ => may _ rfl) t)
    | true =>
      cases op with
      | setProperty objValue name value =>
        cases name with
        | none => exact rest (issues_bind (issues_act plain) fun _ => trivial)
        | some name =>
          refine Prog.spares_after ?_ fun _ => trivial
          refine Prog.spares_after (rest (issues_getStringUTFChars plain _ name)) fun propName => ?_
          refine Prog.spares_after (secures_toJSValue hash other uncalled _ ?_) fun propValue => ?_
          · rintro f v rfl
            exact fine f v List.mem_cons_self
          · refine rest (issues_bind ?_ fun _ => issues_bind (issues_enterInt rfl) fun _ => trivial)
            exact issues_prepareProperty plain propName value propValue
      | set objValue value index =>
        refine Prog.spares_after ?_ fun _ => trivial
        refine Prog.spares_after (secures_toJSValue hash other uncalled _ ?_) fun child => ?_
        · rintro f v rfl
          exact fine f v List.mem_cons_self
        · refine rest (issues_bind (issues_when (issues_act plain)) fun _ => ?_)
          exact issues_bind (issues_enterInt rfl) fun _ => trivial
      | call func thisObj args fuel =>
        refine Prog.spares_after ?_ fun _ => trivial
        refine Prog.spares_after (secures_callArguments hash other uncalled _ fine [] []) fun converted => ?_
        cases converted with
        | none => trivial
        | some converted =>
          exact rest (issues_callWith plain (may _ rfl) (may _ rfl) (may _ rfl) _ _ _ _ _ fuel)
      | _ => cases converts

include other uncalled in
theorem secures_callFunctionBack
    (fine : ∀ f, W.secures (.putCallFunction f) ∨ ∀ v, ¬ W.uses (.setFuncCallback v f.hashCode f))
    (callFunctionId : Int32) (args : List (Option JavaObject)) :
    (Wrapper.callFunctionBack callFunctionId args).Spares W fun result =>
      ∀ f v, result = some (.callFunction f) → ¬ W.uses (.setFuncCallback v f.hashCode f) := by
  refine Prog.spares_after (secures_issues other uncalled (issues_askJava (c := .callFunctionMapGet _) rfl)) ?_
  intro found
  split
  · refine Prog.spares_after (Or.inr ⟨uncalled _, fun _ => trivial⟩) fun ret => ?_
    split
    next g =>
      rcases fine g with secured | unused
      · exact Or.inl secured
      · refine Or.inr ⟨other _ rfl, fun _ _ f v same => ?_⟩
        cases same
        exact unused v
    next ret none =>
      rintro f v rfl
      exact absurd rfl (none f)
  · refine Or.inr ⟨other _ rfl, fun _ _ f v same => ?_⟩
    cases same

include hash other uncalled in
theorem secures_jsFnCallback
    (fine : ∀ f, W.secures (.putCallFunction f) ∨ ∀ v, ¬ W.uses (.setFuncCallback v f.hashCode f))
    (func thisObj : JSValue) (argv : List JSValue) :
    (jsFnCallback func thisObj argv).Spares W fun _ => True := by
  have plain : NoStore .plain := rfl
  have rest : ∀ {R : Type} {p : Program R}, Issues NoStore p → p.Spares W fun _ => True :=
    fun issues => secures_issues other uncalled issues
  have arguments : Issues NoStore (Wrapper.callbackArguments thisObj argv) := by
    induction argv with
    | nil => trivial
    | cons v argv ih =>
      refine issues_bind (issues_toJavaObject plain .saved thisObj v false) fun arg => ?_
      exact issues_bind ih fun _ => trivial
  refine Prog.spares_after (rest (issues_askInt plain)) fun callbackId => ?_
  refine Prog.spares_after (rest (issues_act rfl)) fun _ => ?_
  refine Prog.spares_after (rest arguments) fun javaArgs => ?_
  refine Prog.spares_bind (secures_callFunctionBack other uncalled fine callbackId javaArgs) ?_
  intro result registered
  refine Prog.spares_after (secures_toJSValue hash other uncalled .saved registered) fun jsValue => ?_
  exact rest (issues_bind (issues_when (issues_act plain)) fun _ => trivial)

end Programs

section JavaPrograms
variable {f : JSCallFunction}

theorem secures_putIfCallFunction {value : Option JavaObject} {p : JavaProgram}
    (rest : value ≠ some (.callFunction f) → p.Spares (passing f) fun _ => True) :
    (Java.putIfCallFunction value p).Spares (passing f) fun _ => True := by
  unfold Java.putIfCallFunction
  split
  next g =>
    by_cases same : g = f
    · exact Or.inl (congrArg JavaPrim.putCallFunction same)
    · refine Or.inr ⟨id, fun _ _ => rest fun here => ?_⟩
      cases here
      exact same rfl
  next none =>
    refine rest ?_
    rintro rfl
    exact none f rfl

theorem secures_putCallFunctions {args : List (Option JavaObject)} {p : JavaProgram}
    (rest : some (.callFunction f) ∉ args → p.Spares (passing f) fun _ => True) :
    (Java.putCallFunctions args p).Spares (passing f) fun _ => True := by
  induction args with
  | nil => exact rest (by simp)
  | cons arg args ih =>
    refine secures_putIfCallFunction fun first => ih fun later => rest ?_
    exact List.not_mem_cons_of_ne_of_not_mem (Ne.symm first) later

theorem secures_onHandle {o : Option JavaObject} {p : Nat → Nat → Nat → JavaProgram}
    (rest : ∀ id pointer objPointer, (p id pointer objPointer).Spares (passing f) fun _ => True) :
    (Java.onHandle o p).Spares (passing f) fun _ => True := by
  unfold Java.onHandle
  split
  · exact rest _ _ _
  · trivial
  · trivial

theorem secures_native {op : NativeOp} (none : some (.callFunction f) ∉ op.arguments) :
    (Java.native op).Spares (passing f) fun _ => True :=
  Or.inr ⟨none, fun _ => trivial⟩

theorem secures_call (func : Option JavaObject) (args : List (Option JavaObject)) (fuel : Nat) :
    (Java.call func args fuel).Spares (passing f) fun _ => True :=
  secures_onHandle fun _ _ _ => secures_putCallFunctions fun none => secures_native none

theorem secures_freeValue (jsObj : Option JavaObject) :
    (Java.freeValue jsObj).Spares (passing f) fun _ => True :=
  secures_onHandle fun _ _ _ => Or.inr ⟨id, fun _ _ => secures_native List.not_mem_nil⟩

theorem secures_getJSFunction (jsObj : Option JavaObject) (name : Option JavaString) :
    (Java.getJSFunction jsObj name).Spares (passing f) fun _ => True := by
  refine secures_onHandle fun _ _ _ => Or.inr ⟨List.not_mem_nil, fun a => ?_⟩
  dsimp only
  split <;> trivial

theorem secures_finallyDo {body last : JavaProgram} (first : body.Spares (passing f) fun _ => True)
    (second : last.Spares (passing f) fun _ => True) :
    (Java.finallyDo body last).Spares (passing f) fun _ => True := by
  refine Prog.spares_after first fun outcome => Prog.spares_after second fun a => ?_
  split <;> trivial

theorem secures_andThen {first second : JavaProgram} (one : first.Spares (passing f) fun _ => True)
    (two : second.Spares (passing f) fun _ => True) :
    (Java.andThen first second).Spares (passing f) fun _ => True := by
  refine Prog.spares_after one fun a => ?_
  split
  · trivial
  · exact two

theorem secures_apiCall {call : ApiCall}
    (noSet : ∀ jsArray index, call ≠ .set jsArray (some (.callFunction f)) index) :
    call.program.Spares (passing f) fun _ => True := by
  have one : ∀ {op : NativeOp}, op.arguments = [] → (Java.native op).Spares (passing f) fun _ => True := by
    intro op empty
    exact secures_native (by rw [empty]; exact List.not_mem_nil)
  cases call with
  | evaluate script fileName isModule fuel => cases isModule <;> exact one rfl
  | getProperty jsObj name => exact secures_onHandle fun _ _ _ => one rfl
  | length jsArray => exact secures_onHandle fun _ _ _ => one rfl
  | get jsArray index => exact secures_onHandle fun _ _ _ => one rfl
  | stringify jsObj => exact secures_onHandle fun _ _ _ => one rfl
  | freeValue jsObj => exact secures_freeValue jsObj
  | call func args fuel => exact secures_call func args fuel
  | setProperty jsObj name value =>
    refine secures_putIfCallFunction fun other => secures_onHandle fun _ _ _ => secures_native ?_
    exact fun here => other (List.mem_singleton.1 here).symm
  | set jsArray value index =>
    refine secures_onHandle fun _ _ _ => secures_native fun here => ?_
    cases List.mem_singleton.1 here
    exact noSet jsArray index rfl
  | invokeMethod thiz name args fuel =>
    refine Prog.spares_after (secures_getJSFunction thiz name) fun a => ?_
    split
    · exact secures_finallyDo (secures_call _ args fuel) (secures_freeValue _)
    · trivial
  | invokeFunction name args fuel =>
    refine Prog.spares_after (one rfl) fun a => ?_
    split
    · refine Prog.spares_after (secures_getJSFunction _ name) fun a => ?_
      split
      · exact secures_finallyDo (secures_call _ args fuel) (secures_andThen (secures_freeValue _)
          (secures_freeValue _))
      · trivial
    · trivial
  | _ => exact one rfl

end JavaPrograms

section Tasks

def World.beyond (w : World) : Addr × (ThreadId → List JavaFrame) := (w.globalObj, w.tasks)

variable {w w' : World}

theorem beyond_onValue {step : World → Addr → Option World} {v : JSValue}
    (keeps : ∀ p w', step w p = some w' → w'.beyond = w.beyond)
    (taken : w.onValue step v = some w') : w'.beyond = w.beyond := by
  unfold World.onValue at taken
  split at taken
  · cases taken
    rfl
  · exact keeps _ _ taken

theorem beyond_toHeap {p : Addr} (step : w.toHeap p = some w') : w'.beyond = w.beyond := by
  obtain ⟨c, -, rfl⟩ := Option.map_eq_some_iff.1 step
  rfl

theorem beyond_toNative {p : Addr} (step : w.toNative p = some w') : w'.beyond = w.beyond := by
  obtain ⟨c, -, given⟩ := Option.bind_eq_some_iff.1 step
  cases of_ite_some given
  rfl

theorem beyond_release {p : Addr} (step : w.release p = some w') : w'.beyond = w.beyond := by
  obtain ⟨c, -, rfl⟩ := Option.map_eq_some_iff.1 step
  split
  · unfold World.jsFuncCallbackFinalizer
    split
    · rfl
    · dsimp only
      split <;> rfl
  · rfl

theorem beyond_exec {c : Prim} {a : Answer} (acts : exec c w = some (a, w')) : w'.beyond = w.beyond := by
  cases counts : c.onHeap with
  | true =>
    obtain ⟨heap, rfl⟩ := exec_onHeap acts counts
    rfl
  | false =>
    cases c with
    | takeJob =>
      simp only [exec] at acts
      split at acts
      · cases acts
      · cases acts
        rfl
    | _ => first | (cases acts; rfl) | cases counts

theorem beyond_depart {e : ForeignCall} (leaves : depart e w = some w') : w'.beyond = w.beyond := by
  cases e with
  | java f args =>
    cases leaves
    rfl
  | engine e =>
    simp only [depart, departEngine] at leaves
    replace leaves := of_ite_some leaves
    split at leaves
    · exact beyond_onValue (fun _ _ => beyond_release) leaves
    · split at leaves
      · exact beyond_onValue (fun _ _ => beyond_toHeap) leaves
      · cases leaves
        rfl

theorem beyond_deliver {e : ForeignCall} {a : Answer} (answers : deliver e a w = some w') :
    w'.beyond = w.beyond := by
  rcases deliver_gives answers with given | ⟨thrown, rfl⟩
  · exact beyond_onValue (fun _ _ => beyond_toNative) given
  · rfl

theorem beyond_engineEvent {e : EngineEvent} (acts : engineEvent w e = some w') : w'.beyond = w.beyond := by
  cases e with
  | alloc p cls =>
    simp only [engineEvent, World.alloc] at acts
    split at acts
    · cases acts
    · cases acts
      rfl
  | dup p =>
    obtain ⟨c, -, rfl⟩ := Option.map_eq_some_iff.1 acts
    rfl
  | drop p =>
    obtain ⟨u, given, dropped⟩ := Option.bind_eq_some_iff.1 acts
    exact (beyond_release dropped).trans (beyond_toNative given)
  | revokeProxy p =>
    obtain ⟨c, -, revoked⟩ := Option.bind_eq_some_iff.1 acts
    cases of_ite_some revoked
    rfl
  | throwValue v =>
    obtain ⟨u, given, dropped⟩ := Option.bind_eq_some_iff.1 acts
    have freed := beyond_onValue (fun _ _ => beyond_release) dropped
    have taken := beyond_onValue (fun _ _ => beyond_toNative) given
    exact freed.trans taken
  | catchException =>
    have caught := beyond_onValue (fun _ _ => beyond_toHeap) acts
    exact caught
  | _ =>
    cases acts
    rfl

theorem tasks_beyond (same : w'.beyond = w.beyond) : w'.tasks = w.tasks := congrArg Prod.snd same

variable {f : JSCallFunction}

theorem secures_setFrames {t : ThreadId} {frames : List JavaFrame}
    (others : ∀ t, ∀ frame ∈ w.tasks t, frame.Spares (passing f))
    (here : ∀ frame ∈ frames, frame.Spares (passing f)) :
    ∀ t', ∀ frame ∈ (setFrames w t frames).tasks t', frame.Spares (passing f) := by
  intro t' frame member
  by_cases same : t' = t
  · subst same
    simp only [setFrames, Function.update_self] at member
    exact here frame member
  · simp only [setFrames, Function.update_of_ne same] at member
    exact others t' frame member

theorem event_spares {ev : Event} {ctx : Option ForeignCall} (acts : event ev ctx w = some w')
    (spared : ∀ t, ∀ frame ∈ w.tasks t, frame.Spares (passing f))
    (noPut : eventChange w ev ≠ .put f)
    (noSet : ∀ t jsArray index, ev ≠ .spawn t (.set jsArray (some (.callFunction f)) index)) :
    ∀ t, ∀ frame ∈ w'.tasks t, frame.Spares (passing f) := by
  cases ev with
  | engine e =>
    cases ctx with
    | none => cases acts
    | some call =>
      cases call with
      | java g args => cases acts
      | engine call =>
        rw [tasks_beyond (beyond_engineEvent (of_ite_some acts))]
        exact spared
  | spawn t call =>
    cases of_ite_some acts
    refine secures_setFrames spared (List.forall_mem_cons.2 ⟨?_, spared t⟩)
    refine secures_apiCall fun jsArray index same => noSet t jsArray index ?_
    rw [same]
  | retire t =>
    replace acts := of_ite_some acts
    split at acts
    next a frames tasks =>
      cases acts
      exact secures_setFrames spared fun frame later => spared t frame (tasks ▸ List.mem_cons_of_mem _ later)
    next => cases acts
  | javaStep t =>
    replace acts := of_ite_some acts
    split at acts
    next c next frames tasks =>
      cases acts
      have all := List.forall_mem_cons.1 (tasks ▸ spared t)
      rcases all.1 with rfl | ⟨-, later⟩
      · exact absurd (by simp only [eventChange, tasks]) noPut
      · have same : (javaExec c w).2.tasks = w.tasks := by cases c <;> rfl
        refine secures_setFrames (same ▸ spared) (List.forall_mem_cons.2 ⟨?_, all.2⟩)
        exact later _ trivial
    next => cases acts

/-- What is asked of the Java code on the stacks of the threads holds after every step, unless the
    callback is registered or given to JSArray.set. -/
theorem perform_spares {m : BridgeMoment} (acts : bridge.perform m = some w')
    (spared : ∀ t, ∀ frame ∈ m.before.tasks t, frame.Spares (passing f))
    (noPut : change m ≠ .put f)
    (noSet : ∀ t jsArray index, m.action ≠ .event (.spawn t (.set jsArray (some (.callFunction f)) index))) :
    ∀ t, ∀ frame ∈ w'.tasks t, frame.Spares (passing f) := by
  obtain ⟨action, ctx, w⟩ := m
  cases action with
  | prim c =>
    obtain ⟨⟨a, u⟩, done, rfl⟩ := Option.map_eq_some_iff.1 acts
    rw [tasks_beyond (beyond_exec done)]
    exact spared
  | depart e =>
    rw [tasks_beyond (beyond_depart acts)]
    exact spared
  | deliver e a =>
    rw [tasks_beyond (beyond_deliver acts)]
    exact spared
  | start o =>
    obtain ⟨⟨u, p⟩, starts, rfl⟩ := Option.map_eq_some_iff.1 acts
    cases o with
    | native t =>
      simp only [bridge, start, startNative] at starts
      split at starts
      next op next frames tasks =>
        split at starts
        next => cases starts
        next =>
          cases of_ite_some starts
          have all := List.forall_mem_cons.1 (tasks ▸ spared t)
          rcases all.1 with impossible | ⟨-, later⟩
          · exact impossible.elim
          · exact secures_setFrames spared (List.forall_mem_cons.2 ⟨later, all.2⟩)
      next => cases starts
    | jsFnCallback func thisObj argv =>
      simp only [bridge, start, startCallback] at starts
      split at starts
      next =>
        cases of_ite_some starts
        exact spared
      next => cases starts
  | finish o a =>
    cases o with
    | native t =>
      replace acts : finishNative t a w = some w' := acts
      unfold finishNative at acts
      split at acts
      next next frames tasks =>
        cases acts
        have all := List.forall_mem_cons.1 (tasks ▸ spared t)
        exact secures_setFrames spared (List.forall_mem_cons.2 ⟨all.1 _, all.2⟩)
      next => cases acts
    | jsFnCallback func thisObj argv =>
      have same := beyond_onValue (fun _ _ => beyond_toHeap) acts
      rw [tasks_beyond same]
      exact spared
  | event ev =>
    exact event_spares acts spared noPut fun t jsArray index same => noSet t jsArray index (congrArg _ same)

end Tasks

end QuickJSBridge
