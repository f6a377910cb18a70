import QuickJSBridge.RegisteredCallbacks

/- The receiver a function handle remembers. It is the payload of whatever this value stood in
   the marshaller's hands, as a number, without a reference of its own. -/
namespace QuickJSBridge
open HostProgram ReentrantMachine

/-- `call` rebuilds the receiver with an object tag. -/
def receiver (objPointer : Nat) : JSValue :=
  if objPointer = 0 then .undefined else .object objPointer

section Receivers

/-- Every function handle that has not been freed records 0 or a live object. -/
def Registry.ReceiversValid (r : Registry) : Prop :=
  ∀ h ∈ r.handles, h.cls = .jsFunction → h.freed = false →
    h.objPointer = 0 ∨ r.objectAt h.objPointer = true

/-- Calling any of them passes undefined or a live object as this. -/
def ReceiversValid (w : World) : Prop :=
  ∀ h ∈ w.handles, h.cls = .jsFunction → h.freed = false →
    receiver h.objPointer = .undefined ∨ (w.classOf (receiver h.objPointer)).isSome = true

theorem valid_iff (w : World) : ReceiversValid w ↔ w.registry.ReceiversValid := by
  have same : ∀ p, (receiver p = .undefined ∨ (w.classOf (receiver p)).isSome = true) ↔
      (p = 0 ∨ w.registry.objectAt p = true) := by
    intro p
    by_cases zero : p = 0
    · simp [receiver, zero]
    · simp [receiver, zero, World.classOf, World.registry]
  constructor
  · intro valid h member function unfreed
    exact (same _).1 (valid h member function unfreed)
  · intro valid h member function unfreed
    exact (same _).2 (valid h member function unfreed)

end Receivers

section Conditions

/-- A function handle may only be made with such a receiver, and the object an unfreed one
    records may not be destroyed. -/
def Registry.KeepsReceivers (r : Registry) : Change → Prop
  | .newHandle h => h.cls = .jsFunction → h.objPointer = 0 ∨ r.objectAt h.objPointer = true
  | .destroy p => ∀ h ∈ r.handles, h.cls = .jsFunction → h.freed = false → h.objPointer = p → p = 0
  | _ => True

theorem valid_newHandle {r : Registry} {h : Handle} (fresh : h.freed = false)
    (valid : r.ReceiversValid) :
    (r.apply (.newHandle h)).ReceiversValid ↔ r.KeepsReceivers (.newHandle h) := by
  constructor
  · intro after function
    exact after h (List.mem_append_right _ (List.mem_singleton.2 rfl)) function fresh
  · intro keeps h' member function unfreed
    rcases List.mem_append.1 member with earlier | last
    · exact valid h' earlier function unfreed
    · cases List.mem_singleton.1 last
      exact keeps function

theorem valid_destroy {r : Registry} {p : Addr} (valid : r.ReceiversValid) :
    (r.apply (.destroy p)).ReceiversValid ↔ r.KeepsReceivers (.destroy p) := by
  have objects : (r.apply (.destroy p)).objectAt = Function.update r.objectAt p false :=
    Registry.objectAt_destroy r p
  have handles : (r.apply (.destroy p)).handles = r.handles := Registry.handles_destroy r p
  unfold Registry.ReceiversValid
  rw [objects, handles]
  constructor
  · intro after h member function unfreed same
    rcases after h member function unfreed with zero | live
    · exact same ▸ zero
    · rw [same, Function.update_self] at live
      cases live
  · intro keeps h member function unfreed
    rcases valid h member function unfreed with zero | live
    · exact Or.inl zero
    · by_cases same : h.objPointer = p
      · exact Or.inl (same.trans (keeps h member function unfreed same))
      · rw [Function.update_of_ne same]
        exact Or.inr live

theorem valid_alloc {r : Registry} {p : Addr} (valid : r.ReceiversValid) :
    (r.apply (.alloc p)).ReceiversValid := by
  intro h member function unfreed
  change h.objPointer = 0 ∨ Function.update r.objectAt p true h.objPointer = true
  by_cases same : h.objPointer = p
  · rw [same, Function.update_self]
    exact Or.inr rfl
  · rw [Function.update_of_ne same]
    exact valid h member function unfreed

theorem change_newHandle {m : BridgeMoment} {h : Handle} (makes : change m = .newHandle h) :
    h.freed = false ∧ ∃ env thisObj pointer borrowed,
      m.action = .prim (.newObject env h.cls thisObj pointer borrowed) ∧ h.objPointer = thisObj.pointer := by
  obtain ⟨action, ctx, w⟩ := m
  have released : ∀ v, releaseOf w v ≠ .newHandle h := by
    intro v same
    unfold releaseOf releaseAt at same
    split at same
    · cases same
    · split at same <;> cases same
  cases action with
  | prim c =>
    cases c with
    | newObject env cls thisObj pointer borrowed =>
      cases makes
      exact ⟨rfl, env, thisObj, pointer, borrowed, rfl, rfl⟩
    | setFuncCallback v id source =>
      simp only [change, primChange] at makes
      split at makes <;> cases makes
    | _ => cases makes
  | depart e =>
    simp only [change, departChange] at makes
    split at makes
    · exact absurd makes (released _)
    · cases makes
  | event ev =>
    cases ev with
    | engine e =>
      cases e with
      | alloc p cls =>
        simp only [change, eventChange, engineChange] at makes
        split at makes <;> cases makes
      | drop p =>
        simp only [change, eventChange, engineChange, releaseAt] at makes
        split at makes <;> cases makes
      | throwValue v => exact absurd makes (released _)
      | _ => cases makes
    | javaStep t =>
      simp only [change, eventChange] at makes
      split at makes <;> cases makes
    | _ => cases makes
  | deliver e a => cases makes
  | start o => cases makes
  | finish o a => cases makes

theorem valid_apply {m : BridgeMoment} {r : Registry} (valid : r.ReceiversValid) :
    (r.apply (change m)).ReceiversValid ↔ r.KeepsReceivers (change m) := by
  generalize made : change m = ch
  cases ch with
  | newHandle h => exact valid_newHandle (change_newHandle made).1 valid
  | destroy p => exact valid_destroy valid
  | alloc p => exact iff_of_true (valid_alloc valid) trivial
  | freed id =>
    apply iff_of_true
    · intro h member function unfreed
      exact valid h (freed_or_same member unfreed) function unfreed
    · trivial
  | _ => exact iff_of_true valid trivial

end Conditions

section Recording

def Prim.answersGlobal (globalObj : Addr) : Prim → Answer → Prop
  | .getGlobalObject, a => a.toValue = .object globalObj
  | _, _ => True

/-- Native code uses an object where a function's handle remembers it as the receiver. A call of
    the engine that is handed the object shows that it is there. -/
def recording (globalObj p : Addr) : Watch Prim ForeignCall Answer where
  answers := Prim.answersGlobal globalObj
  uses c := ∃ env pointer borrowed, c = .newObject env .jsFunction (.object p) pointer borrowed
  calls _ := False
  secures c := c = .getGlobalObject ∧ p = globalObj
  securedBy e := ∃ call, e = .engine call ∧ .object p ∈ call.operands ∧ ∀ v, call ≠ .freeValue v

/-- A value that `call` may take for an object though it is none. -/
def JSValue.misleads (v : JSValue) : Prop := v.isObject = false ∧ v.pointer ≠ 0

def misdirecting (globalObj : Addr) : Watch Prim ForeignCall Answer where
  answers := Prim.answersGlobal globalObj
  uses c := ∃ env v pointer borrowed, c = .newObject env .jsFunction v pointer borrowed ∧ v.misleads
  calls _ := False
  secures _ := False
  securedBy _ := False

def Recorded (c : BridgeConfig) (p : Addr) : Prop := ¬ Bridge.Spared (recording c.state.globalObj p) c

/-- What an operation is called with. -/
inductive Begun where
  | native (op : NativeOp)
  | callback (thisObj : JSValue) (argv : List JSValue)
  | unknown

def begun : BridgeOp → World → Begun
  | .native t, w =>
    match w.tasks t with
    | .ready (.enter op _) :: _ => .native op
    | _ => .unknown
  | .jsFnCallback _ thisObj argv, _ => .callback thisObj argv

/-- What receivers need. `execute` returns no function, and a callback whose `this` is no object,
    and has another payload than 0, is given none; native code and JS code pass on no address as an
    object at which none lives; and no object is destroyed that is the global one, that a handle
    remembers or that an operation under way may still record. -/
structure KeepsReceivers (operations : List Begun) (c : BridgeConfig) (m : BridgeMoment) : Prop where
  executed : ∀ bytecode fuel env thisObj pointer borrowed,
    operations.head? = some (.native (.execute bytecode fuel)) →
    m.action = .prim (.newObject env .jsFunction thisObj pointer borrowed) → ¬ thisObj.misleads
  calledBack : ∀ thisObj argv env v pointer borrowed,
    operations.head? = some (.callback thisObj argv) → thisObj.misleads →
    m.action = .prim (.newObject env .jsFunction v pointer borrowed) → ¬ v.misleads
  handed : ∀ call p, m.action = .depart (.engine call) → .object p ∈ call.operands →
    c.state.registry.objectAt p = true
  called : ∀ func p argv, m.action = .start (.jsFnCallback func (.object p) argv) →
    c.state.registry.objectAt p = true
  destroy : ∀ p, change m = .destroy p → p ≠ c.state.globalObj ∧ ¬ Recorded c p ∧
    ∀ h ∈ c.state.handles, h.cls = .jsFunction → h.freed = false → h.objPointer ≠ p

end Recording

section Programs
variable {R S : Type}

def Prim.makesFunction : Prim → Bool
  | .newObject _ .jsFunction _ _ _ => true
  | _ => false

abbrev Handleless (p : Program R) : Prop := p.Within (fun c => c.makesFunction = false) fun _ => True

theorem handleless_act {c : Prim} (other : c.makesFunction = false) : Handleless (act c) :=
  ⟨other, fun _ => trivial⟩
theorem handleless_enter {e : EngineCall} {f : Answer → R} :
    Handleless (.enter (.engine e) fun a => .ret (f a)) := ⟨trivial, fun _ => trivial⟩
theorem handleless_ask {c : Prim} {f : Answer → R} (other : c.makesFunction = false) :
    Handleless (.prim c fun a => .ret (f a)) := ⟨other, fun _ => trivial⟩

theorem handleless_asks {p : Program R} (asks : Asks p) : Handleless p := by
  refine Prog.within_mono asks (fun c may => ?_) fun _ _ => trivial
  cases c <;> first | rfl | cases may

theorem handleless_freeValue (v : JSValue) : Handleless (freeValue v) := handleless_asks (asks_freeValue v)

theorem handleless_freeValues (values : List JSValue) : Handleless (Wrapper.freeValues values) := by
  induction values with
  | nil => trivial
  | cons v values ih => exact Prog.within_bind (handleless_freeValue v) fun _ => ih

theorem handleless_when {p : Program Unit} {condition : Bool} (handleless : Handleless p) :
    Handleless (p.when condition) := by
  cases condition with
  | true => exact handleless
  | false => trivial

theorem handleless_getPendingErrorStr : Handleless getPendingErrorStr := by
  refine Prog.within_bind (handleless_ask rfl) fun error => ?_
  refine Prog.within_bind (handleless_asks (asks_getJSErrorStr error)) fun text => ?_
  exact Prog.within_bind (handleless_freeValue error) fun _ => trivial

theorem handleless_throwJSException (env : JNIEnv) (text : List Piece) :
    Handleless (throwJSException env text) := by
  refine Prog.within_bind (handleless_ask rfl) fun pending => ?_
  split
  · trivial
  · exact handleless_act rfl

theorem handleless_throwPendingJSException (env : JNIEnv) : Handleless (throwPendingJSException env) :=
  Prog.within_bind handleless_getPendingErrorStr fun error => handleless_throwJSException env error

theorem handleless_throwIfUnhandledRejections (fuel : Nat) :
    Handleless (throwIfUnhandledRejections fuel) := by
  have texts : ∀ error, Handleless (rejectionsText fuel error) := by
    induction fuel with
    | zero => exact fun _ => trivial
    | succ fuel ih =>
      intro error
      refine Prog.within_bind (handleless_ask rfl) fun empty => ?_
      split
      · trivial
      · refine Prog.within_bind (handleless_ask rfl) fun reason => ?_
        refine Prog.within_bind (handleless_asks (asks_getJSErrorStr reason)) fun text => ?_
        refine Prog.within_bind (handleless_freeValue reason) fun _ => ?_
        exact Prog.within_bind (handleless_act rfl) fun _ => ih _
  refine Prog.within_bind (texts []) fun error => ?_
  split
  · trivial
  · exact Prog.within_bind (handleless_throwJSException _ _) fun _ => trivial

theorem handleless_pendingJobRounds (env : JNIEnv) (fuel : Nat) :
    Handleless (pendingJobRounds env fuel) := by
  have job : Handleless executePendingJob := by
    refine Prog.within_bind (handleless_ask rfl) fun empty => ?_
    split
    · trivial
    · refine Prog.within_bind (handleless_act rfl) fun _ => ?_
      refine Prog.within_bind handleless_enter fun res => ?_
      exact Prog.within_bind (handleless_freeValue res) fun _ => trivial
  induction fuel with
  | zero => trivial
  | succ fuel ih =>
    refine Prog.within_bind job fun err => ?_
    split
    · exact ih
    · split
      · refine Prog.within_bind handleless_getPendingErrorStr fun error => ?_
        exact Prog.within_bind (handleless_throwJSException env error) fun _ => trivial
      · trivial

theorem handleless_executePendingJobLoop (env : JNIEnv) (fuel : Nat) :
    Handleless (executePendingJobLoop env fuel) := by
  refine Prog.within_bind (handleless_ask rfl) fun pending => ?_
  split
  · trivial
  · refine Prog.within_bind (handleless_pendingJobRounds env fuel) fun finished => ?_
    split
    · refine Prog.within_bind (handleless_act rfl) fun _ => ?_
      exact Prog.within_bind (handleless_throwIfUnhandledRejections fuel) fun _ => trivial
    · trivial

theorem handleless_toJSValue (env : JNIEnv) (o : Option JavaObject) : Handleless (toJSValue env o) := by
  refine Prog.within_mono (makes_toJSValue env o) ?_ fun _ _ => trivial
  rintro c (makes | ⟨-, name, rfl⟩)
  · cases c <;> first | rfl | cases makes
  · rfl

theorem handleless_callArguments (env : JNIEnv) (args : List (Option JavaObject))
    (arguments freeArguments : List JSValue) :
    Handleless (Wrapper.callArguments env args arguments freeArguments) := by
  induction args generalizing arguments freeArguments with
  | nil => trivial
  | cons arg args ih =>
    refine Prog.within_bind (handleless_ask rfl) fun pending => ?_
    split
    · trivial
    · refine Prog.within_bind (handleless_toJSValue env arg) fun jsArg => ?_
      split
      · trivial
      · exact ih _ _

theorem handleless_createContext (t : ThreadId) : Handleless (NativeOp.createContext.program t) := by
  have dump : ∀ v, Handleless (Wrapper.jsDumpObj v) := fun v => Prog.within_bind handleless_enter fun _ =>
    trivial
  refine Prog.within_bind (Prog.within_bind (handleless_act rfl) fun _ => ?_) fun _ => trivial
  refine Prog.within_bind (handleless_act rfl) fun _ => Prog.within_bind handleless_enter fun _ => ?_
  refine Prog.within_bind ?_ fun _ => Prog.within_bind (handleless_act rfl) fun _ => handleless_act rfl
  refine Prog.within_bind handleless_enter fun compiled => Prog.within_bind ?_ fun val => ?_
  · unfold Wrapper.evalCompiled
    split
    · trivial
    · exact Prog.within_bind handleless_enter fun _ => handleless_enter
  · refine Prog.within_bind (handleless_when ?_) fun _ => handleless_freeValue val
    refine Prog.within_bind (handleless_ask rfl) fun exceptionVal => ?_
    refine Prog.within_bind (handleless_ask rfl) fun isError => Prog.within_bind (dump _) fun _ => ?_
    refine Prog.within_bind (handleless_when ?_) fun _ => handleless_freeValue exceptionVal
    refine Prog.within_bind handleless_enter fun val => Prog.within_bind (handleless_when (dump _)) fun _ => ?_
    exact handleless_freeValue val

end Programs

section Receiving
variable {R S : Type} {g : Addr} {W : Watch Prim ForeignCall Answer}

def Fine (W : Watch Prim ForeignCall Answer) (v : JSValue) : Prop :=
  ∀ env pointer borrowed, ¬ W.uses (.newObject env .jsFunction v pointer borrowed)

def Trusted (W : Watch Prim ForeignCall Answer) (v : JSValue) : Prop :=
  (∀ call : EngineCall, v ∈ call.operands → (∀ u, call ≠ .freeValue u) → W.securedBy (.engine call)) ∨ Fine W v

structure WatchesReceivers (g : Addr) (W : Watch Prim ForeignCall Answer) : Prop where
  answers : W.answers = Prim.answersGlobal g
  uses : ∀ c : Prim, c.makesFunction = false → ¬ W.uses c
  calls : ∀ e, ¬ W.calls e
  objects : ∀ q, Trusted W (.object q)
  undefined : Fine W .undefined
  globalObject : W.secures .getGlobalObject ∨ Fine W (.object g)

theorem watches_recording (g p : Addr) : WatchesReceivers g (recording g p) where
  answers := rfl
  uses := by
    rintro c other ⟨env, pointer, borrowed, rfl⟩
    cases other
  calls _ := id
  objects q := by
    by_cases same : q = p
    · subst same
      exact Or.inl fun call handed keeps => ⟨call, rfl, handed, keeps⟩
    · refine Or.inr ?_
      rintro env pointer borrowed ⟨env', pointer', borrowed', ⟨⟩⟩
      exact same rfl
  undefined := by
    rintro env pointer borrowed ⟨env', pointer', borrowed', ⟨⟩⟩
  globalObject := by
    by_cases same : p = g
    · exact Or.inl ⟨rfl, same⟩
    · refine Or.inr ?_
      rintro env pointer borrowed ⟨env', pointer', borrowed', ⟨⟩⟩
      exact same rfl

theorem trusted_recording (g p : Addr) (v : JSValue) : Trusted (recording g p) v := by
  by_cases same : v = .object p
  · subst same
    exact Or.inl fun call handed keeps => ⟨call, rfl, handed, keeps⟩
  · refine Or.inr ?_
    rintro env pointer borrowed ⟨env', pointer', borrowed', ⟨⟩⟩
    exact same rfl

theorem fine_misdirecting {v : JSValue} (leads : ¬ v.misleads) (g : Addr) : Fine (misdirecting g) v := by
  rintro env pointer borrowed ⟨env', v', pointer', borrowed', ⟨⟩, misleads⟩
  exact leads misleads

theorem watches_misdirecting (g : Addr) : WatchesReceivers g (misdirecting g) where
  answers := rfl
  uses := by
    rintro c other ⟨env, v, pointer, borrowed, rfl, -⟩
    cases other
  calls _ := id
  objects q := Or.inr (fine_misdirecting (fun misleads => by cases misleads.1) g)
  undefined := fine_misdirecting (fun misleads => misleads.2 rfl) g
  globalObject := Or.inr (fine_misdirecting (fun misleads => by cases misleads.1) g)

abbrev Unrecorded (W : Watch Prim ForeignCall Answer) (q : Program R) : Prop := q.Spares W fun _ => True

theorem unrecorded_result {q : Program R} {f : R → S} (unrecorded : Unrecorded W q) :
    Unrecorded W (q.bind fun r => .ret (f r)) :=
  Prog.spares_after unrecorded fun _ => trivial

variable (watches : WatchesReceivers g W)
include watches

theorem unrecorded_of_handleless {q : Program R} (handleless : Handleless q) : Unrecorded W q :=
  Prog.spares_within handleless watches.uses fun e _ => watches.calls e

theorem unrecorded_bind {q : Program S} {f : S → Program R} (first : Handleless q)
    (rest : ∀ s, Unrecorded W (f s)) : Unrecorded W (q.bind f) :=
  Prog.spares_after (unrecorded_of_handleless watches first) rest

theorem unrecorded_toJavaObject (env : JNIEnv) {thisObj : JSValue} (fine : Fine W thisObj)
    (value : JSValue) (nonJsCallback : Bool) :
    Unrecorded W (toJavaObject env thisObj value nonJsCallback) := by
  have one : ∀ {c : Prim}, c.makesFunction = false → Handleless (askJava c) := fun may =>
    ⟨may, fun _ => trivial⟩
  have after : ∀ {q : Program Unit} {o : Option JavaObject}, Handleless q →
      Unrecorded W ((q.when nonJsCallback).bind fun _ => .ret o) :=
    fun handleless => unrecorded_bind watches (handleless_when handleless) fun _ => trivial
  cases value with
  | string q s =>
    refine unrecorded_bind watches handleless_enter fun text => unrecorded_bind watches ?_ fun result => ?_
    · cases text with
      | none => trivial
      | some bytes => exact one rfl
    · exact after (handleless_freeValue _)
  | object q =>
    refine Prog.spares_after ?_ fun result => after ?_
    · refine unrecorded_bind watches (handleless_ask rfl) fun isFunction => ?_
      split
      · exact Or.inr ⟨fine env q !nonJsCallback, fun _ _ => trivial⟩
      · refine unrecorded_bind watches handleless_enter fun isArray => ?_
        split <;> exact unrecorded_of_handleless watches (one rfl)
    · refine Prog.within_bind (handleless_ask rfl) fun known => ?_
      split
      · exact handleless_freeValue _
      · exact handleless_act rfl
  | float64 d =>
    simp only [toJavaObject]
    split <;> exact unrecorded_of_handleless watches (one rfl)
  | bool b => exact unrecorded_of_handleless watches (one rfl)
  | int n => exact unrecorded_of_handleless watches (one rfl)
  | bigInt q n => exact unrecorded_of_handleless watches (one rfl)
  | _ => trivial

theorem unrecorded_checked {env : JNIEnv} {v : JSValue} {r : R} {q : Program R} (fine : Unrecorded W q) :
    Unrecorded W (if v.isException then (throwPendingJSException env).bind fun _ => .ret r else q) := by
  split
  · exact unrecorded_bind watches (handleless_throwPendingJSException env) fun _ => trivial
  · exact fine

theorem unrecorded_looped {env : JNIEnv} {fuel : Nat} {v : JSValue} {r : R} {result : Program R}
    (fine : Unrecorded W result) : Unrecorded W ((executePendingJobLoop env fuel).bind fun finished =>
      if finished then result else (freeValue v).bind fun _ => .ret r) := by
  refine unrecorded_bind watches (handleless_executePendingJobLoop env fuel) fun finished => ?_
  split
  · exact fine
  · exact unrecorded_bind watches (handleless_freeValue v) fun _ => trivial

theorem unrecorded_handed {call : EngineCall} {thisObj : JSValue} {f : Answer → Program R}
    (trusted : Trusted W thisObj) (handed : thisObj ∈ call.operands) (keeps : ∀ v, call ≠ .freeValue v)
    (rest : Fine W thisObj → ∀ a, Unrecorded W (f a)) : Unrecorded W (.enter (.engine call) f) := by
  rcases trusted with secured | fine
  · exact Or.inl (secured call handed keeps)
  · exact Or.inr ⟨watches.calls _, rest fine⟩

theorem unrecorded_globalResult (env : JNIEnv) (result : JSValue) :
    Unrecorded W ((askValue .getGlobalObject).bind fun global =>
      (toJavaObject env global result true).bind fun jsObj => (freeValue global).bind fun _ => .ret jsObj) := by
  rcases watches.globalObject with secured | fine
  · exact Or.inl secured
  · refine Prog.spares_bind (M := fun global => global = .object g) ?_ ?_
    · refine Or.inr ⟨watches.uses _ rfl, fun a global => ?_⟩
      rw [watches.answers] at global
      exact global
    · rintro global rfl
      refine Prog.spares_after (unrecorded_toJavaObject watches env fine result true) fun jsObj => ?_
      exact unrecorded_bind watches (handleless_freeValue _) fun _ => trivial

theorem unrecorded_nonNull {env : JNIEnv} {argument : Option JavaString} {message : String}
    {q : JavaString → Program Answer} (given : ∀ s, Unrecorded W (q s)) :
    Unrecorded W (nonNull env argument message q) := by
  cases argument with
  | none => exact unrecorded_bind watches (handleless_act rfl) fun _ => trivial
  | some s => exact given s

theorem unrecorded_evaluated (env : JNIEnv) (fuel : Nat) (v : JSValue) :
    Unrecorded W (if v.isException then (throwPendingJSException env).bind fun _ => .ret none
      else (executePendingJobLoop env fuel).bind fun finished =>
        if finished then (askValue .getGlobalObject).bind fun global =>
          (toJavaObject env global v true).bind fun jsObj => (freeValue global).bind fun _ => .ret jsObj
        else (freeValue v).bind fun _ => .ret none) :=
  unrecorded_checked watches (unrecorded_looped watches (unrecorded_globalResult watches env v))

theorem unrecorded_call (env : JNIEnv) (func thisObj : Nat) (args : List (Option JavaObject)) (fuel : Nat) :
    Unrecorded W (Wrapper.call env func thisObj args fuel) := by
  refine unrecorded_bind watches (handleless_callArguments env args [] []) fun converted => ?_
  cases converted with
  | none => trivial
  | some converted =>
    have trusted : Trusted W (if thisObj = 0 then .undefined else .object thisObj) := by
      split
      · exact Or.inr watches.undefined
      · exact watches.objects thisObj
    refine unrecorded_handed watches trusted (List.mem_cons_of_mem _ List.mem_cons_self) (fun _ => nofun) ?_
    intro fine ret
    refine unrecorded_checked watches (unrecorded_bind watches (handleless_freeValues _) fun _ => ?_)
    exact unrecorded_looped watches (unrecorded_toJavaObject watches env fine _ true)

theorem unrecorded_execute (trusts : ∀ v, Trusted W v) (env : JNIEnv) (byteCode : List UInt8) (fuel : Nat) :
    Unrecorded W (Wrapper.execute env byteCode fuel) := by
  refine unrecorded_bind watches handleless_enter fun obj => unrecorded_checked watches ?_
  refine unrecorded_handed watches (trusts obj) List.mem_cons_self (fun _ => nofun) fun fine a => ?_
  refine Prog.spares_after (p := .ret a.toInt) trivial fun status => ?_
  split
  · trivial
  · refine unrecorded_bind watches handleless_enter fun val => unrecorded_looped watches ?_
    exact unrecorded_checked watches (unrecorded_toJavaObject watches env fine val true)

/-- What a native method records it has handed to the engine, and it is an object unless the method
    is `execute`. -/
theorem unrecorded_program {op : NativeOp}
    (trusts : ∀ bytecode fuel, op = .execute bytecode fuel → ∀ v, Trusted W v) (t : ThreadId) :
    Unrecorded W (op.program t) := by
  cases op with
  | createContext => exact unrecorded_of_handleless watches (handleless_createContext t)
  | runGC => exact unrecorded_result (unrecorded_of_handleless watches handleless_enter)
  | evaluate script fileName fuel =>
    refine unrecorded_nonNull watches fun script => unrecorded_nonNull watches fun fileName =>
      unrecorded_result ?_
    refine unrecorded_bind watches (handleless_ask rfl) fun script => ?_
    refine unrecorded_bind watches (handleless_ask rfl) fun fileName => ?_
    exact unrecorded_bind watches handleless_enter fun v => unrecorded_evaluated watches _ fuel v
  | evaluateModule script fileName fuel =>
    refine unrecorded_nonNull watches fun script => unrecorded_nonNull watches fun fileName =>
      unrecorded_result ?_
    refine unrecorded_bind watches (handleless_ask rfl) fun script => ?_
    refine unrecorded_bind watches (handleless_ask rfl) fun fileName => ?_
    exact unrecorded_bind watches handleless_enter fun v => unrecorded_evaluated watches _ fuel v
  | compile source fileName isModule =>
    refine unrecorded_nonNull watches fun source => unrecorded_nonNull watches fun fileName =>
      unrecorded_result ?_
    refine unrecorded_bind watches (handleless_ask rfl) fun source => ?_
    refine unrecorded_bind watches (handleless_ask rfl) fun fileName => ?_
    refine unrecorded_bind watches handleless_enter fun compiled => unrecorded_checked watches ?_
    refine unrecorded_bind watches handleless_enter fun buffer => ?_
    refine unrecorded_bind watches (handleless_when (handleless_throwPendingJSException _)) fun _ => ?_
    exact unrecorded_bind watches (handleless_freeValue compiled) fun _ => trivial
  | execute bytecode fuel =>
    cases bytecode with
    | none => trivial
    | some bytecode => exact unrecorded_result (unrecorded_execute watches (trusts _ _ rfl) _ bytecode fuel)
  | getGlobalObject =>
    refine unrecorded_result (unrecorded_bind watches (handleless_ask rfl) fun value => ?_)
    refine unrecorded_bind watches (handleless_ask rfl) fun result => ?_
    exact unrecorded_bind watches (handleless_freeValue value) fun _ => trivial
  | getProperty objValue name =>
    refine unrecorded_nonNull watches fun name => unrecorded_result
      (unrecorded_bind watches (handleless_ask rfl) fun name => ?_)
    refine unrecorded_handed watches (watches.objects objValue) List.mem_cons_self (fun _ => nofun)
      fun fine a => ?_
    exact unrecorded_checked watches (unrecorded_toJavaObject watches _ fine a.toValue true)
  | setProperty objValue name value =>
    refine unrecorded_nonNull watches fun name => unrecorded_result
      (unrecorded_bind watches (handleless_ask rfl) fun propName => ?_)
    refine unrecorded_bind watches (handleless_toJSValue _ value) fun propValue =>
      unrecorded_bind watches ?_ fun _ => unrecorded_bind watches handleless_enter fun _ => trivial
    unfold Wrapper.prepareProperty
    split
    · exact handleless_act rfl
    · exact handleless_act rfl
    · exact Prog.within_bind handleless_enter fun _ => trivial
    · trivial
  | length objValue =>
    refine unrecorded_result (unrecorded_bind watches handleless_enter fun v => unrecorded_checked watches ?_)
    exact unrecorded_bind watches (handleless_freeValue v) fun _ => trivial
  | get objValue index =>
    refine unrecorded_result ?_
    refine unrecorded_handed watches (watches.objects objValue) List.mem_cons_self (fun _ => nofun)
      fun fine a => ?_
    exact unrecorded_toJavaObject watches _ fine a.toValue true
  | set objValue value index =>
    refine unrecorded_result (unrecorded_bind watches (handleless_toJSValue _ value) fun child => ?_)
    refine unrecorded_bind watches (handleless_when (handleless_act rfl)) fun _ => ?_
    exact unrecorded_bind watches handleless_enter fun _ => trivial
  | freeValue objValue =>
    refine unrecorded_result (unrecorded_bind watches (handleless_ask rfl) fun known => ?_)
    split
    · exact unrecorded_of_handleless watches (handleless_freeValue _)
    · trivial
  | call func thisObj args fuel => exact unrecorded_result (unrecorded_call watches _ func thisObj args fuel)
  | stringify objValue =>
    refine unrecorded_result (unrecorded_bind watches handleless_enter fun obj => unrecorded_checked watches ?_)
    refine unrecorded_bind watches handleless_enter fun result => unrecorded_bind watches
      (handleless_freeValue obj) fun _ => ?_
    cases result with
    | none => trivial
    | some bytes => exact unrecorded_of_handleless watches (handleless_ask rfl)
  | parseJSON json =>
    refine unrecorded_nonNull watches fun json => unrecorded_result
      (unrecorded_bind watches (handleless_ask rfl) fun json => ?_)
    refine unrecorded_bind watches handleless_enter fun v => unrecorded_checked watches ?_
    exact unrecorded_toJavaObject watches _ watches.undefined v true

/-- The functions among the arguments of a callback remember its `this` value. -/
theorem unrecorded_jsFnCallback {thisObj : JSValue} (fine : Fine W thisObj) (func : JSValue)
    (argv : List JSValue) : Unrecorded W (jsFnCallback func thisObj argv) := by
  have arguments : Unrecorded W (Wrapper.callbackArguments thisObj argv) := by
    induction argv with
    | nil => trivial
    | cons v argv ih =>
      refine Prog.spares_after (unrecorded_toJavaObject watches .saved fine v false) fun arg => ?_
      exact Prog.spares_after ih fun _ => trivial
  refine unrecorded_bind watches (handleless_ask rfl) fun callbackId => unrecorded_bind watches
    (handleless_act rfl) fun _ => ?_
  refine Prog.spares_after arguments fun javaArgs => unrecorded_bind watches ?_ fun result => ?_
  · refine Prog.within_bind (handleless_ask rfl) fun found => ?_
    split
    · refine Prog.within_bind ⟨trivial, fun _ => trivial⟩ fun ret => ?_
      split
      · exact Prog.within_bind (handleless_act rfl) fun _ => trivial
      · trivial
    · exact Prog.within_bind (handleless_act rfl) fun _ => trivial
  · refine unrecorded_bind watches (handleless_toJSValue .saved result) fun jsValue => ?_
    exact unrecorded_bind watches (handleless_when (handleless_act rfl)) fun _ => trivial

end Receiving

section Runs

variable {c c' : BridgeConfig} {l : BridgeLabel} {m : BridgeMoment} {g p : Addr}

theorem answersGlobal_exec {q : Prim} {w w' : World} {a : Answer} (acts : exec q w = some (a, w')) :
    q.answersGlobal w.globalObj a := by
  cases q with
  | getGlobalObject =>
    obtain ⟨u, -, same⟩ := Option.map_eq_some_iff.1 acts
    cases same
    rfl
  | _ => trivial

theorem globalObj_perform {w' : World} (acts : bridge.perform m = some w') :
    w'.globalObj = m.before.globalObj := by
  obtain ⟨action, ctx, w⟩ := m
  have same : ∀ {u : World}, u.beyond = w.beyond → u.globalObj = w.globalObj := congrArg Prod.fst
  cases action with
  | prim q =>
    obtain ⟨⟨a, u⟩, done, rfl⟩ := Option.map_eq_some_iff.1 acts
    exact same (beyond_exec done)
  | depart e => exact same (beyond_depart acts)
  | deliver e a => exact same (beyond_deliver acts)
  | start o =>
    obtain ⟨⟨u, q⟩, starts, rfl⟩ := Option.map_eq_some_iff.1 acts
    cases o with
    | native t =>
      simp only [bridge, start, startNative] at starts
      split at starts
      next =>
        split at starts
        next => cases starts
        next =>
          cases of_ite_some starts
          rfl
      next => cases starts
    | jsFnCallback func thisObj argv =>
      simp only [bridge, start, startCallback] at starts
      split at starts
      next =>
        cases of_ite_some starts
        rfl
      next => cases starts
  | finish o a =>
    cases o with
    | native t =>
      replace acts : finishNative t a w = some w' := acts
      unfold finishNative at acts
      split at acts
      next =>
        cases acts
        rfl
      next => cases acts
    | jsFnCallback func thisObj argv => exact same (beyond_onValue (fun _ _ => beyond_toHeap) acts)
  | event ev =>
    replace acts : event ev ctx w = some w' := acts
    cases ev with
    | engine e =>
      cases ctx with
      | none => cases acts
      | some call =>
        cases call with
        | java f args => cases acts
        | engine call => exact same (beyond_engineEvent (of_ite_some acts))
    | spawn t call =>
      cases of_ite_some acts
      rfl
    | retire t =>
      replace acts := of_ite_some acts
      split at acts
      next =>
        cases acts
        rfl
      next => cases acts
    | javaStep t =>
      replace acts := of_ite_some acts
      split at acts
      next q next frames tasks =>
        cases acts
        cases q <;> rfl
      next => cases acts

theorem moment_call {o : BridgeOp} (named : moment (.call o) c = some m) : m.action = .start o := by
  obtain ⟨w, control, stack⟩ := c
  cases control <;> cases named
  rfl

theorem start_program {o : BridgeOp} {ctx : Option ForeignCall} {w w' : World} {q : Program Answer}
    (starts : start o ctx w = some (w', q)) :
    (∃ t op, begun o w = .native op ∧ q = op.program t) ∨
    ∃ func thisObj argv, o = .jsFnCallback func thisObj argv ∧
      q = (jsFnCallback (.object func) thisObj argv).bind fun v => .ret (.value v) := by
  cases o with
  | native t =>
    simp only [start, startNative] at starts
    split at starts
    next op next frames tasks =>
      split at starts
      next => cases starts
      next =>
        cases of_ite_some starts
        exact Or.inl ⟨t, op, by simp only [begun, tasks], rfl⟩
    next => cases starts
  | jsFnCallback func thisObj argv =>
    simp only [start, startCallback] at starts
    split at starts
    next =>
      cases of_ite_some starts
      exact Or.inr ⟨func, thisObj, argv, rfl, rfl⟩
    next => cases starts

/-- An operation comes to rely on an object only when it gets the global one, when the object is
    handed to the engine, or when JS code calls back with it as `this`. -/
theorem step_recorded (taken : bridge.step l c = some c') (named : moment l c = some m)
    (recorded : Recorded c' p) : Recorded c p ∨ (m.action = .prim .getGlobalObject ∧ p = c.state.globalObj) ∨
      (∃ call, m.action = .depart (.engine call) ∧ .object p ∈ call.operands ∧ ∀ v, call ≠ .freeValue v) ∨
      ∃ func argv, m.action = .start (.jsFnCallback func (.object p) argv) := by
  obtain ⟨m', named', same, acts⟩ := Bridge.step_performs taken
  cases named.symm.trans named'
  by_contra others
  simp only [not_or] at others
  obtain ⟨spared, noGlobal, noCall, noCallback⟩ := others
  apply recorded
  rw [globalObj_perform acts, same]
  refine Bridge.step_spared (fun _ _ _ => answersGlobal_exec) taken (not_not.1 spared) ?_ ?_ ?_
  · rintro q next running ⟨rfl, here⟩
    exact noGlobal ⟨(Bridge.moment_running named).1 _ next running, here⟩
  · rintro e next running ⟨call, rfl, handed, keeps⟩
    exact noCall ⟨call, (Bridge.moment_running named).2 _ next running, handed, keeps⟩
  · rintro o ctx w q rfl starts
    rcases start_program starts with ⟨t, op, -, rfl⟩ | ⟨func, thisObj, argv, rfl, rfl⟩
    · exact unrecorded_program (watches_recording _ p) (fun _ _ _ v => trusted_recording _ p v) t
    · refine unrecorded_result (unrecorded_jsFnCallback (watches_recording _ p) ?_ _ argv)
      rintro env pointer borrowed ⟨env', pointer', borrowed', ⟨⟩⟩
      exact noCallback ⟨func, argv, moment_call named⟩

/-- Only `execute`, and callbacks with such a `this`, let a handle remember what is no object. -/
def Directed (globalObj : Addr) : Begun → Program Answer → Prop
  | .native (.execute _ _), _ => True
  | .callback thisObj _, q => thisObj.misleads ∨ Unrecorded (misdirecting globalObj) q
  | _, q => Unrecorded (misdirecting globalObj) q

theorem directed_prim {w w' : World} {operation : Begun} {q : Prim} {next : Answer → Program Answer}
    {a : Answer} (directed : Directed w.globalObj operation (.prim q next))
    (acts : exec q w = some (a, w')) : Directed w.globalObj operation (next a) := by
  have later : Unrecorded (misdirecting w.globalObj) (.prim q next) →
      Unrecorded (misdirecting w.globalObj) (next a) := by
    rintro (impossible | ⟨-, rest⟩)
    · exact impossible.elim
    · exact rest a (answersGlobal_exec acts)
  unfold Directed at directed ⊢
  split at directed
  · trivial
  · exact directed.imp_right later
  · exact later directed

theorem directed_enter {operation : Begun} {e : ForeignCall} {next : Answer → Program Answer}
    (directed : Directed g operation (.enter e next)) (a : Answer) : Directed g operation (next a) := by
  have later : Unrecorded (misdirecting g) (.enter e next) → Unrecorded (misdirecting g) (next a) := by
    rintro (impossible | ⟨-, rest⟩)
    · exact impossible.elim
    · exact rest a
  unfold Directed at directed ⊢
  split at directed
  · trivial
  · exact directed.imp_right later
  · exact later directed

theorem directed_start {o : BridgeOp} {ctx : Option ForeignCall} {w w' : World} {q : Program Answer}
    (starts : start o ctx w = some (w', q)) : Directed g (begun o w) q := by
  rcases start_program starts with ⟨t, op, begins, rfl⟩ | ⟨func, thisObj, argv, rfl, rfl⟩
  · rw [begins]
    cases op with
    | execute bytecode fuel => trivial
    | _ => exact unrecorded_program (watches_misdirecting g) (fun _ _ same => by cases same) t
  · by_cases misleads : thisObj.misleads
    · exact Or.inl misleads
    · refine Or.inr (unrecorded_result ?_)
      exact unrecorded_jsFnCallback (watches_misdirecting g) (fine_misdirecting misleads g) _ argv

structure Attached (operations : List Begun) (c : BridgeConfig) : Prop where
  directed : Bridge.Noted (Directed c.state.globalObj) operations c
  globalObject : c.state.registry.objectAt c.state.globalObj = true
  recorded : ∀ p, Recorded c p → c.state.registry.objectAt p = true
  receivers : c.state.registry.ReceiversValid

theorem objectAt_apply {r : Registry} {ch : Change} (there : r.objectAt p = true)
    (stays : ∀ q, ch = .destroy q → p ≠ q) : (r.apply ch).objectAt p = true := by
  cases ch with
  | alloc q =>
    change Function.update r.objectAt q true p = true
    by_cases same : p = q
    · rw [same, Function.update_self]
    · rwa [Function.update_of_ne same]
  | destroy q =>
    change (r.destroy q).objectAt p = true
    rw [Registry.objectAt_destroy, Function.update_of_ne (stays q rfl)]
    exact there
  | _ => exact there

theorem keeps_of_attached {operations : List Begun} (attached : Attached operations c)
    (named : moment l c = some m) (allowed : KeepsReceivers operations c m) :
    c.state.registry.KeepsReceivers (change m) := by
  cases ch : change m with
  | newHandle h =>
    intro function
    obtain ⟨-, env, thisObj, pointer, borrowed, makes, payload⟩ := change_newHandle ch
    rw [function] at makes
    obtain ⟨next, running⟩ := moment_prim named makes
    have leads : ¬ thisObj.misleads := by
      intro misleads
      obtain ⟨operation, top, directed⟩ := Bridge.noted_running attached.directed running
      have unrecorded : ¬ Unrecorded (misdirecting c.state.globalObj)
          (.prim (.newObject env .jsFunction thisObj pointer borrowed) next) := by
        rintro (impossible | ⟨unused, -⟩)
        · exact impossible
        · exact unused ⟨env, thisObj, pointer, borrowed, rfl, misleads⟩
      unfold Directed at directed
      split at directed
      · exact allowed.executed _ _ env thisObj pointer borrowed top makes misleads
      · rcases directed with other | directed
        · exact allowed.calledBack _ _ env thisObj pointer borrowed top other makes misleads
        · exact unrecorded directed
      · exact unrecorded directed
    rw [payload]
    by_cases zero : thisObj.pointer = 0
    · exact Or.inl zero
    · cases thisObj with
      | object p =>
        refine Or.inr (attached.recorded p fun spared => ?_)
        refine Bridge.spared_unused spared running ?_ ⟨env, pointer, borrowed, rfl⟩
        rintro ⟨⟨⟩, -⟩
      | _ => exact absurd ⟨rfl, zero⟩ leads
  | destroy p =>
    intro h member function unfreed same
    exact absurd same ((allowed.destroy p ch).2.2 h member function unfreed)
  | _ => trivial

theorem step_attached {operations : List Begun} (attached : Attached operations c)
    (taken : bridge.step l c = some c') (named : moment l c = some m)
    (allowed : KeepsReceivers operations c m) : Attached (Bridge.noted begun m operations) c' := by
  obtain ⟨m', named', same, acts⟩ := Bridge.step_performs taken
  cases named.symm.trans named'
  have registry := perform_registry acts
  rw [same] at registry
  have global : c'.state.globalObj = c.state.globalObj := same ▸ globalObj_perform acts
  have still : ∀ {p}, c.state.registry.objectAt p = true → (∀ q, change m = .destroy q → p ≠ q) →
      c'.state.registry.objectAt p = true := by
    intro p there stays
    rw [registry]
    exact objectAt_apply there stays
  refine ⟨?_, ?_, ?_, ?_⟩
  · rw [global]
    exact Bridge.step_noted taken named attached.directed (fun _ _ _ _ _ => directed_prim)
      (fun _ _ _ => directed_enter) fun _ _ _ _ => directed_start
  · rw [global]
    exact still attached.globalObject fun q destroys => (allowed.destroy q destroys).1.symm
  · intro p recorded
    have quiet : c.state.registry.objectAt p = true → change m = .keep →
        c'.state.registry.objectAt p = true := by
      intro there keeps
      refine still there fun q destroys => ?_
      cases keeps.symm.trans destroys
    rcases step_recorded taken named recorded with
      before | ⟨asks, rfl⟩ | ⟨call, hands, handed, keeps⟩ | ⟨func, argv, calls⟩
    · refine still (attached.recorded p before) ?_
      rintro q destroys rfl
      exact (allowed.destroy p destroys).2.1 before
    · exact quiet attached.globalObject (by simp only [change, asks, primChange])
    · refine quiet (allowed.handed call p hands handed) ?_
      simp only [change, hands]
      cases call with
      | freeValue v => exact absurd rfl (keeps v)
      | _ => rfl
    · exact quiet (allowed.called func p argv calls) (by simp only [change, calls])
  · rw [registry]
    exact (valid_apply attached.receivers).2 (keeps_of_attached attached named allowed)

/-- Every unfreed function handle has a valid receiver, in every state of a run in which `execute`
    and callbacks with a primitive `this` make none, every object passed on is alive and no object
    dies that is or may be recorded. -/
theorem receivers_valid {globalObj : Addr} {jvm : List UInt8 → JavaString} {labels : List BridgeLabel}
    (permits : bridge.PermitsNoted begun KeepsReceivers labels [] (initial globalObj jvm)) :
    ∀ w ∈ bridge.visited labels (initial globalObj jvm), ReceiversValid w := by
  intro w seen
  have start : Attached [] (initial globalObj jvm) := by
    refine ⟨trivial, ?_, ?_, ?_⟩
    · simp [initial, World.fresh, World.registry]
    · exact fun p recorded => absurd trivial recorded
    · exact List.forall_mem_nil _
  obtain ⟨operations, d, attached, rfl⟩ := Bridge.visited_permitsNoted Attached
    (fun _ _ _ _ _ attached taken named allowed => step_attached attached taken named allowed) start
      permits seen
  exact (valid_iff d.state).2 attached.receivers

/-- Thread 0 evaluates a script whose value is a function. -/
def evaluatesToFunction : List BridgeLabel :=
  constructing ++
  ([.event (.spawn 0 (.evaluate (some []) (some []) false 1)), .call (.native 0), .tau, .tau,
    .tau, .event (.engine (.alloc 30 (some .function))), .answer (.value (.object 30)), .tau, .tau,
    .tau, .tau, .tau, .tau, .tau, .tau, .tau, .tau, .answer .unit, .tau, .event (.retire 0)] : List BridgeLabel)

def careful (m : BridgeMoment) : Bool :=
  (match change m with
    | .destroy _ => false
    | _ => true) &&
  match m.action with
  | .prim (.newObject _ .jsFunction thisObj _ _) => thisObj.isObject
  | .depart (.engine call) => call.operands.all fun v =>
    match v with
    | .object p => m.before.registry.objectAt p
    | _ => true
  | .start (.jsFnCallback _ _ _) => false
  | _ => true

theorem keeps_careful (operations : List Begun) (c : BridgeConfig) (m : BridgeMoment)
    (same : m.before = c.state) (safe : careful m = true) : KeepsReceivers operations c m := by
  obtain ⟨intact, fine⟩ := Bool.and_eq_true_iff.1 safe
  refine ⟨?_, ?_, ?_, ?_, ?_⟩
  · rintro bytecode fuel env thisObj pointer borrowed - makes ⟨other, -⟩
    simp only [makes, other] at fine
    cases fine
  · rintro thisObj argv env v pointer borrowed - - makes ⟨other, -⟩
    simp only [makes, other] at fine
    cases fine
  · intro call p hands handed
    rw [hands] at fine
    exact same ▸ List.all_eq_true.1 fine (.object p) handed
  · intro func p argv calls
    rw [calls] at fine
    cases fine
  · intro p destroys
    rw [destroys] at intact
    cases intact

/-- The function's handle records the global object, which is there. -/
theorem global_receiver_valid :
    (∀ w ∈ bridge.visited evaluatesToFunction (initial 1 fun _ => []), ReceiversValid w) ∧
    (bridge.run evaluatesToFunction (initial 1 fun _ => [])).map (fun c => c.state.handles) =
      some [⟨.jsFunction, 30, 1, 2, false, false⟩] :=
  ⟨receivers_valid (Bridge.permitsNoted_of_respects keeps_careful
    (Bridge.respects_of_all (by decide))), by decide⟩

def executesToFunction : List BridgeLabel :=
  constructing ++
  ([.event (.spawn 0 (.compile (some []) (some []) false)), .call (.native 0), .tau, .tau, .tau,
    .event (.engine (.alloc 30 none)), .answer (.value (.functionBytecode 30)), .tau,
    .answer (.text (some [1])), .tau, .answer .unit, .tau, .event (.retire 0),
    .event (.spawn 0 (.execute (some [1]) 1)), .call (.native 0), .tau,
    .event (.engine (.alloc 30 none)), .answer (.value (.functionBytecode 30)), .tau,
    .answer (.int 0), .tau, .event (.engine (.drop 30)),
    .event (.engine (.alloc 31 (some .function))), .answer (.value (.object 31)),
    .tau, .tau, .tau, .tau, .tau, .tau, .tau, .tau, .tau, .event (.retire 0)] : List BridgeLabel)

/-- The receiver recorded there is the bytecode, which is gone. -/
theorem executed_receiver_dead : ¬ ∀ (globalObj : Addr) (jvm : List UInt8 → JavaString)
    (labels : List BridgeLabel),
    ∀ w ∈ bridge.visited labels (initial globalObj jvm), ReceiversValid w := by
  intro valid
  have left : (bridge.run executesToFunction (initial 1 fun _ => [])).map (fun c =>
      (c.state.handles[0]?, c.state.heap 30)) =
      some (some ⟨.jsFunction, 31, 30, 4, false, false⟩, none) := by decide
  obtain ⟨c, ran, state⟩ := Option.map_eq_some_iff.1 left
  obtain ⟨handle, gone⟩ := Prod.mk.inj state
  have dead := valid 1 _ _ c.state (Bridge.run_visited ran) _ (List.mem_of_getElem? handle) rfl rfl
  rcases dead with undefined | live
  · cases undefined
  · simp [receiver, World.classOf, gone] at live

end Runs
end QuickJSBridge
