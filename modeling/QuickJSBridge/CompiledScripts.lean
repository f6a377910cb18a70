import QuickJSBridge.HelperHandles

/- Precompiled scripts against the scripts they were made of. The engine is seen from outside: it
   compiles a source to code, writes and reads code, and runs it. Reference counts are not part of
   this view, so that the state of the engine is what scripts can tell apart. -/
namespace QuickJSBridge
open HostProgram

section Engine

/-- An engine whose code survives being written and read. All that native code can ask of it
    otherwise is left open. -/
structure ScriptEngine where
  State : Type
  Code : Type
  globalObj : Addr
  /-- `JS_Eval` up to the function bytecode, which there is none of after a syntax error. -/
  compile : List UInt8 → List UInt8 → Option Code
  /-- The function bytecode is run with the global object as `this`. -/
  run : Code → World × State → JSValue → World × State → Prop
  writeObject : Code → List UInt8
  readObject : List UInt8 → Option Code
  read_write : ∀ c, readObject (writeObject c) = some c
  write_nonempty : ∀ c, writeObject c ≠ []
  isFunction : State → Addr → Bool
  /-- There is an object at this address. -/
  occupied : State → Addr → Prop
  global_occupied : ∀ s, occupied s globalObj
  prims : Prim → State → Option (Answer × State)
  calls : ForeignCall → World × State → Answer → World × State → Prop

structure ScriptState (E : ScriptEngine) where
  world : World
  js : E.State
  code : Addr → Option E.Code

namespace ScriptState
variable {E : ScriptEngine}

def side (s : ScriptState E) : World × E.State := (s.world, s.js)

def Free (s : ScriptState E) (p : Addr) : Prop := ¬ E.occupied s.js p ∧ s.code p = none

def setCode (s : ScriptState E) (p : Addr) (c : Option E.Code) : ScriptState E :=
  { s with code := Function.update s.code p c }

def After (s : ScriptState E) (x : World × E.State) : ScriptState E := ⟨x.1, x.2, s.code⟩

def unrecorded (s : ScriptState E) : ScriptState E := { s with world := { s.world with handles := [] } }

def recorded (s : ScriptState E) (h : Handle) : ScriptState E :=
  { s with world := { s.world with handles := s.world.handles ++ [h] } }

def kept (s : ScriptState E) (p : Addr) : ScriptState E :=
  { s with world := { s.world with values := Function.update s.world.values p true } }

end ScriptState

def Prim.outsideEngine : Prim → Bool
  | .getStringUTFChars _ _ | .newStringUTF _ _ | .valueOf _ _ | .unbox _ _ => true
  | .newObject _ _ _ _ _ | .hashCode _ _ | .exceptionCheck _ | .throw _ _ => true
  | .callFunctionMapGet _ | .putCallFunction _ | .saveEnv _ | .contextCreated => true
  | .valuesCount _ | .valuesInsert _ | .valuesErase _ => true
  | .rejectionsEmpty | .rejectionsFront | .rejectionsPop => true
  | _ => false

namespace ScriptEngine
variable (E : ScriptEngine)

def exec (c : Prim) (s : ScriptState E) : Option (Answer × ScriptState E) :=
  if c.outsideEngine then (QuickJSBridge.exec c s.world).map fun x => (x.1, { s with world := x.2 })
  else
    match c with
    | .getGlobalObject => some (.value (.object E.globalObj), s)
    | .isFunction (.object p) => some (.bool (E.isFunction s.js p), s)
    | c => (E.prims c s.js).map fun x => (x.1, { s with js := x.2 })

def reply (e : EngineCall) (s : ScriptState E) (a : Answer) (s' : ScriptState E) : Prop :=
  match e with
  | .eval source fileName ⟨false, false⟩ =>
    match E.compile source fileName with
    | some c => ∃ v x, E.run c s.side v x ∧ a = .value v ∧ s' = s.After x
    | none => ∃ x, E.calls (.engine e) s.side a x ∧ s' = s.After x
  | .eval source fileName ⟨false, true⟩ =>
    match E.compile source fileName with
    | some c => ∃ p, s.Free p ∧ a = .value (.functionBytecode p) ∧ s' = s.setCode p (some c)
    | none => ∃ x, E.calls (.engine e) s.side a x ∧ s' = s.After x
  | .writeObject (.functionBytecode p) =>
    ∃ c, s.code p = some c ∧ a = .text (some (E.writeObject c)) ∧ s' = s
  | .readObject bytes =>
    match E.readObject bytes with
    | some c => ∃ p, s.Free p ∧ a = .value (.functionBytecode p) ∧ s' = s.setCode p (some c)
    | none => ∃ x, E.calls (.engine e) s.side a x ∧ s' = s.After x
  -- only a module has anything to resolve
  | .resolveModule (.functionBytecode _) => a = .int 0 ∧ s' = s
  | .evalFunction (.functionBytecode p) =>
    ∃ c v x, s.code p = some c ∧ E.run c s.side v x ∧ a = .value v ∧
      s' = (s.setCode p none).After x
  | .freeValue (.functionBytecode p) => a = .unit ∧ s' = s.setCode p none
  | .freeValue _ => a = .unit ∧ s' = s
  | e => ∃ x, E.calls (.engine e) s.side a x ∧ s' = s.After x

def meaning : Meaning (ScriptState E) Prim ForeignCall Answer where
  exec := E.exec
  reply
    | .engine e, s, a, s' => E.reply e s a s'
    | .java f args, s, a, s' => ∃ x, E.calls (.java f args) s.side a x ∧ s' = s.After x

def NativeReply (t : ThreadId) (op : NativeOp) (s : ScriptState E) (a : Answer) (s' : ScriptState E) :
    Prop :=
  ∃ h b u, s.world.javaException = none ∧ Exec E.meaning (op.program t) s h (.returned b) u ∧
    a = seen b u.world ∧ s' = { u with world := { u.world with javaException := none } }

def javaMeaning (t : ThreadId) : Meaning (ScriptState E) JavaPrim NativeOp Answer where
  exec c s := some ((javaExec c s.world).1, { s with world := (javaExec c s.world).2 })
  reply := E.NativeReply t

end ScriptEngine
end Engine

section Paths
variable {E : ScriptEngine} {t : ThreadId} {x y : ScriptState E} {c : E.Code} {fuel : Nat}
  {o : Option JavaObject}

open ScriptState

theorem setCode_back {p : Addr} (free : x.Free p) (c : Option E.Code) : (x.setCode p c).setCode p none = x := by
  have same : Function.update (Function.update x.code p c) p none = x.code := by
    rw [Function.update_idem, ← free.2, Function.update_eq_self]
  unfold setCode
  rw [same]

theorem setCode_code (x : ScriptState E) (p : Addr) (c : Option E.Code) : (x.setCode p c).code p = c := by
  unfold setCode
  exact Function.update_self p c x.code

/-- What becomes of the value a script has come to: the jobs are executed, and Java gets the value
    unless one of them fails. -/
def concluding (t : ThreadId) (fuel : Nat) (thisObj v : JSValue) : Program (Option JavaObject) := do
  if ← executePendingJobLoop (.ofThread t) fuel then toJavaObject (.ofThread t) thisObj v true
  else
    freeValue v
    return none

theorem gives_freeObject {p : Addr} {q : Unit} :
    Gives E.meaning (freeValue (.object p)) x q y ↔ y = x := by
  have asks : freeValue (.object p) = enter (.freeValue (.object p)) := rfl
  rw [asks, enter, gives_enter]
  constructor
  · rintro ⟨a, u, ⟨-, rfl⟩, last⟩
    exact (gives_ret.1 last).2
  · rintro rfl
    exact ⟨.unit, y, ⟨rfl, rfl⟩, gives_ret.2 ⟨rfl, rfl⟩⟩

theorem gives_text {env : JNIEnv} {text : JavaString} {R : Type} {f : List UInt8 → Program R} {r : R} :
    Gives E.meaning ((getStringUTFChars env text).bind f) x r y ↔
      Gives E.meaning (f (ModifiedUtf8.encode text)) x r y := by
  have acts : E.meaning.exec (.getStringUTFChars env text) x =
      some (.text (some (ModifiedUtf8.encode text)), x) := rfl
  exact gives_prim_of acts

theorem gives_global {p : JSValue → Program (Option JavaObject)} :
    Gives E.meaning (do
      let global ← askValue .getGlobalObject
      let jsObj ← p global
      freeValue global
      return jsObj) x o y ↔ Gives E.meaning (p (.object E.globalObj)) x o y := by
  have acts : E.meaning.exec .getGlobalObject x = some (.value (.object E.globalObj), x) := rfl
  have asks : Gives E.meaning (do
      let global ← askValue .getGlobalObject
      let jsObj ← p global
      freeValue global
      return jsObj) x o y ↔ Gives E.meaning ((p (.object E.globalObj)).bind fun jsObj =>
        (freeValue (.object E.globalObj)).bind fun _ => .ret jsObj) x o y := gives_prim_of acts
  rw [asks, gives_bind]
  constructor
  · rintro ⟨jsObj, u, first, rest⟩
    obtain ⟨_, v, frees, last⟩ := gives_bind.1 rest
    obtain ⟨rfl, rfl⟩ := gives_ret.1 last
    cases gives_freeObject.1 frees
    exact first
  · intro first
    exact ⟨o, y, first, gives_bind.2 ⟨(), y, gives_freeObject.2 rfl, gives_ret.2 ⟨rfl, rfl⟩⟩⟩

theorem gives_evaluate {script fileName : JavaString}
    (compiles : E.compile (ModifiedUtf8.encode script) (ModifiedUtf8.encode fileName) = some c)
    (normal : ∀ v z, E.run c x.side v z → v.isException = false) :
    Gives E.meaning (Wrapper.evaluate (.ofThread t) script fileName fuel) x o y ↔
      ∃ v z, E.run c x.side v z ∧
        Gives E.meaning (concluding t fuel (.object E.globalObj) v) (x.After z) o y := by
  have answers : ∀ a u, E.meaning.reply (.engine (.eval (ModifiedUtf8.encode script)
      (ModifiedUtf8.encode fileName) ⟨false, false⟩)) x a u ↔
      ∃ v z, E.run c x.side v z ∧ a = .value v ∧ u = x.After z := by
    intro a u
    simp only [ScriptEngine.meaning, ScriptEngine.reply, compiles]
  have concludes : ∀ v u, Gives E.meaning ((executePendingJobLoop (.ofThread t) fuel).bind fun finished =>
      if finished then do
        let global ← askValue .getGlobalObject
        let jsObj ← toJavaObject (.ofThread t) global v true
        freeValue global
        return jsObj
      else do
        freeValue v
        return none) u o y ↔
      Gives E.meaning (concluding t fuel (.object E.globalObj) v) u o y := by
    intro v u
    refine Iff.trans ?_ gives_bind.symm
    rw [gives_bind]
    apply exists_congr
    intro finished
    apply exists_congr
    intro z
    cases finished with
    | true => exact and_congr_right fun _ => gives_global
    | false => exact Iff.rfl
  unfold Wrapper.evaluate
  rw [Prog.bind_eq, gives_text, Prog.bind_eq, gives_text, Prog.bind_eq, enterValue, Prog.bind_enter,
    gives_enter]
  constructor
  · rintro ⟨a, u, answered, rest⟩
    obtain ⟨v, z, ran, rfl, rfl⟩ := (answers a u).1 answered
    simp only [Prog.bind_ret, Answer.toValue, normal v z ran] at rest
    exact ⟨v, z, ran, (concludes v _).1 rest⟩
  · rintro ⟨v, z, ran, rest⟩
    refine ⟨.value v, x.After z, (answers _ _).2 ⟨v, z, ran, rfl, rfl⟩, ?_⟩
    simp only [Prog.bind_ret, Answer.toValue, normal v z ran]
    exact (concludes v _).2 rest

theorem gives_compile {script fileName : JavaString} {r : Option (List UInt8)}
    (compiles : E.compile (ModifiedUtf8.encode script) (ModifiedUtf8.encode fileName) = some c) :
    Gives E.meaning (Wrapper.compile (.ofThread t) script fileName false) x r y ↔
      (∃ p, x.Free p) ∧ r = some (E.writeObject c) ∧ y = x := by
  have compiled : ∀ a u, E.meaning.reply (.engine (.eval (ModifiedUtf8.encode script)
      (ModifiedUtf8.encode fileName) ⟨false, true⟩)) x a u ↔
      ∃ p, x.Free p ∧ a = .value (.functionBytecode p) ∧ u = x.setCode p (some c) := by
    intro a u
    simp only [ScriptEngine.meaning, ScriptEngine.reply, compiles]
  have written : (some (E.writeObject c)).filter (!·.isEmpty) = some (E.writeObject c) := by
    have some : (E.writeObject c).isEmpty = false := List.isEmpty_eq_false_iff.2 (E.write_nonempty c)
    simp [Option.filter, some]
  have writes : ∀ p, x.Free p → (Gives E.meaning (do
      let buffer ← enterText (.writeObject (.functionBytecode p))
      let result := buffer.filter (!·.isEmpty)
      (throwPendingJSException (.ofThread t)).when result.isNone
      freeValue (.functionBytecode p)
      return result) (x.setCode p (some c)) r y ↔ r = some (E.writeObject c) ∧ y = x) := by
    intro p free
    rw [Prog.bind_eq, enterText, Prog.bind_enter, gives_enter]
    constructor
    · rintro ⟨a, u, ⟨c', there, rfl, rfl⟩, rest⟩
      cases (setCode_code x p (some c)).symm.trans there
      rw [Prog.bind_ret, Answer.toText] at rest
      dsimp only at rest
      rw [written] at rest
      obtain ⟨b, v, ⟨-, rfl⟩, last⟩ := gives_enter.1 rest
      obtain ⟨rfl, rfl⟩ := gives_ret.1 last
      exact ⟨rfl, setCode_back free _⟩
    · rintro ⟨rfl, rfl⟩
      refine ⟨_, _, ⟨c, setCode_code y p _, rfl, rfl⟩, ?_⟩
      rw [Prog.bind_ret, Answer.toText]
      dsimp only
      rw [written]
      exact gives_enter.2 ⟨.unit, _, ⟨rfl, (setCode_back free _).symm⟩, gives_ret.2 ⟨rfl, rfl⟩⟩
  unfold Wrapper.compile
  rw [Prog.bind_eq, gives_text, Prog.bind_eq, gives_text, Prog.bind_eq, enterValue, Prog.bind_enter,
    gives_enter]
  constructor
  · rintro ⟨a, u, answered, rest⟩
    obtain ⟨p, free, rfl, rfl⟩ := (compiled a u).1 answered
    obtain ⟨rfl, rfl⟩ := (writes p free).1 rest
    exact ⟨⟨p, free⟩, rfl, rfl⟩
  · rintro ⟨⟨p, free⟩, rfl, rfl⟩
    exact ⟨_, _, (compiled _ _).2 ⟨p, free, rfl, rfl⟩, (writes p free).2 ⟨rfl, rfl⟩⟩

/-- What executing the code comes to: the same, except for the object that Java is shown the value
    for. -/
theorem gives_execute {bytes : List UInt8} (reads : E.readObject bytes = some c)
    (normal : ∀ v z, E.run c x.side v z → v.isException = false) :
    Gives E.meaning (Wrapper.execute (.ofThread t) bytes fuel) x o y ↔
      ∃ p, x.Free p ∧ ∃ v z, E.run c x.side v z ∧
        Gives E.meaning (concluding t fuel (.functionBytecode p) v) (x.After z) o y := by
  have answers : ∀ a u, E.meaning.reply (.engine (.readObject bytes)) x a u ↔
      ∃ p, x.Free p ∧ a = .value (.functionBytecode p) ∧ u = x.setCode p (some c) := by
    intro a u
    simp only [ScriptEngine.meaning, ScriptEngine.reply, reads]
  have evaluates : ∀ p v z, x.Free p → E.run c x.side v z → E.meaning.reply
      (.engine (.evalFunction (.functionBytecode p))) (x.setCode p (some c)) (.value v) (x.After z) := by
    intro p v z free ran
    refine ⟨c, v, z, setCode_code x p _, ran, rfl, ?_⟩
    rw [setCode_back free]
  have concludes : ∀ p v u, v.isException = false →
      (Gives E.meaning ((executePendingJobLoop (.ofThread t) fuel).bind fun finished =>
        if finished then
          if v.isException then do
            throwPendingJSException (.ofThread t)
            return none
          else toJavaObject (.ofThread t) (.functionBytecode p) v true
        else do
          freeValue v
          return none) u o y ↔
        Gives E.meaning (concluding t fuel (.functionBytecode p) v) u o y) := by
    intro p v u sound
    simp only [sound]
    exact Iff.rfl
  unfold Wrapper.execute
  rw [Prog.bind_eq, enterValue, Prog.bind_enter, gives_enter]
  constructor
  · rintro ⟨a, u, answered, rest⟩
    obtain ⟨p, free, rfl, rfl⟩ := (answers a u).1 answered
    obtain ⟨b, u', ⟨rfl, rfl⟩, rest⟩ := gives_enter.1 rest
    obtain ⟨d, w, ⟨c', v, z, there, ran, rfl, rfl⟩, rest⟩ := gives_enter.1 rest
    cases (setCode_code x p (some c)).symm.trans there
    rw [setCode_back free] at rest
    exact ⟨p, free, v, z, ran, (concludes p v _ (normal v z ran)).1 rest⟩
  · rintro ⟨p, free, v, z, ran, rest⟩
    refine ⟨_, _, (answers _ _).2 ⟨p, free, rfl, rfl⟩, ?_⟩
    refine gives_enter.2 ⟨.int 0, _, ⟨rfl, rfl⟩, ?_⟩
    exact gives_enter.2 ⟨.value v, _, evaluates p v z free ran, (concludes p v _ (normal v z ran)).2 rest⟩

def objectHandle (env : JNIEnv) (p : Addr) : Program (Option JavaObject) := do
  if (← enterInt (.isArray (.object p))) ≠ 0 then askJava (.newObject env .jsArray .undefined p false)
  else askJava (.newObject env .jsObject .undefined p false)

theorem gives_object {env : JNIEnv} {thisObj : JSValue} {p : Addr} (other : E.isFunction x.js p = false) :
    Gives E.meaning (toJavaObject env thisObj (.object p) true) x o y ↔
      Gives E.meaning ((objectHandle env p).bind fun result =>
        (keepValue (.object p)).bind fun _ => .ret result) x o y := by
  have asked : E.meaning.exec (.isFunction (.object p)) x = some (.bool false, x) := by
    rw [← other]
    rfl
  exact gives_prim_of asked

theorem gives_newObject {env : JNIEnv} {cls : HandleClass} {p : Addr} {thisObj : JSValue} :
    Gives E.meaning (askJava (.newObject env cls thisObj p false)) x o y →
      ∃ id, o = some (.handle id cls p thisObj.pointer) := by
  intro made
  obtain ⟨a, u, acts, last⟩ := gives_prim.1 made
  cases acts
  exact ⟨_, (gives_ret.1 last).1⟩

theorem gives_valueOf {env : JNIEnv} {boxed : JavaObject}
    (made : Gives E.meaning (askJava (.valueOf env boxed)) x o y) : o = some boxed := by
  obtain ⟨a, u, acts, last⟩ := gives_prim.1 made
  cases acts
  exact (gives_ret.1 last).1

theorem shown_alike {env : JNIEnv} {thisObj other v : JSValue}
    (noFunction : ∀ p, v = .object p → E.isFunction x.js p = false) :
    Gives E.meaning (toJavaObject env thisObj v true) x o y ↔
      Gives E.meaning (toJavaObject env other v true) x o y := by
  cases v with
  | object p => rw [gives_object (noFunction p rfl), gives_object (noFunction p rfl)]
  | _ => exact Iff.rfl

theorem gives_keepValue {p : Addr} {q : Unit} :
    Gives E.meaning (keepValue (.object p)) x q y ↔ y = x.kept p := by
  have counts : E.meaning.exec (.valuesCount p) x = some (.bool (x.world.values p), x) := rfl
  have inserts : E.meaning.exec (.valuesInsert p) x = some (.unit, x.kept p) := rfl
  refine (gives_prim_of counts).trans ?_
  cases there : x.world.values p with
  | true =>
    have same : x.kept p = x := by
      unfold kept
      rw [← there, Function.update_eq_self]
    rw [same]
    exact gives_freeObject
  | false => exact (gives_prim_of inserts).trans (gives_ret.trans ⟨fun last => last.2, fun last => ⟨rfl, last⟩⟩)

theorem shows_function {env : JNIEnv} {thisObj : JSValue} {p : Addr} (function : E.isFunction x.js p = true) :
    Gives E.meaning (toJavaObject env thisObj (.object p) true) x o y ↔
      o = some (.handle x.world.handles.length .jsFunction p thisObj.pointer) ∧
      y = (x.recorded ⟨.jsFunction, p, thisObj.pointer, x.world.serialAt p, false, false⟩).kept p := by
  have asked : E.meaning.exec (.isFunction (.object p)) x = some (.bool true, x) := by
    rw [← function]
    rfl
  have made : E.meaning.exec (.newObject env .jsFunction thisObj p false) x =
      some (.javaReturn (some (.handle x.world.handles.length .jsFunction p thisObj.pointer)),
        x.recorded ⟨.jsFunction, p, thisObj.pointer, x.world.serialAt p, false, false⟩) := rfl
  have shows : Gives E.meaning (toJavaObject env thisObj (.object p) true) x o y ↔
      Gives E.meaning ((keepValue (.object p)).bind fun _ =>
          .ret (some (.handle x.world.handles.length .jsFunction p thisObj.pointer)))
        (x.recorded ⟨.jsFunction, p, thisObj.pointer, x.world.serialAt p, false, false⟩) o y :=
    (gives_prim_of asked).trans (gives_prim_of made)
  refine shows.trans (gives_bind.trans ?_)
  constructor
  · rintro ⟨_, u, keeps, last⟩
    obtain ⟨same, rfl⟩ := gives_ret.1 last
    exact ⟨same, gives_keepValue.1 keeps⟩
  · rintro ⟨rfl, rfl⟩
    exact ⟨(), _, gives_keepValue.2 rfl, gives_ret.2 ⟨rfl, rfl⟩⟩

theorem shown_receiver {env : JNIEnv} {thisObj v : JSValue} {id : Nat} {pointer objPointer : Addr}
    (shown : Gives E.meaning (toJavaObject env thisObj v true) x
      (some (.handle id .jsFunction pointer objPointer)) y) : objPointer = thisObj.pointer := by
  have kept : ∀ {p : Program (Option JavaObject)} {q : Addr}, Gives E.meaning (p.bind fun result =>
      (keepValue (.object q)).bind fun _ => .ret result) x (some
        (.handle id .jsFunction pointer objPointer)) y →
      ∃ u, Gives E.meaning p x (some (.handle id .jsFunction pointer objPointer)) u := by
    intro p q shown
    obtain ⟨result, u, made, rest⟩ := gives_bind.1 shown
    obtain ⟨_, v, -, last⟩ := gives_bind.1 rest
    rw [(gives_ret.1 last).1]
    exact ⟨u, made⟩
  cases v with
  | object p =>
    cases function : E.isFunction x.js p with
    | true =>
      obtain ⟨same, -⟩ := (shows_function function).1 shown
      cases same
      rfl
    | false =>
      obtain ⟨u, made⟩ := kept ((gives_object function).1 shown)
      obtain ⟨n, z, -, rest⟩ := gives_bind.1 made
      split at rest
      · obtain ⟨id', same⟩ := gives_newObject rest
        cases same
      · obtain ⟨id', same⟩ := gives_newObject rest
        cases same
  | string p string =>
    obtain ⟨bytes, u, -, rest⟩ := gives_bind.1 shown
    obtain ⟨result, z, made, rest⟩ := gives_bind.1 rest
    obtain ⟨_, v, -, last⟩ := gives_bind.1 rest
    obtain ⟨same, -⟩ := gives_ret.1 last
    subst same
    cases bytes with
    | none =>
      obtain ⟨h, run⟩ := made
      obtain ⟨-, dead, -⟩ := exec_crash run
      cases dead
    | some bytes =>
      obtain ⟨a, w, acts, last⟩ := gives_prim.1 made
      cases acts
      cases (gives_ret.1 last).1
  | float64 d =>
    simp only [toJavaObject] at shown
    split at shown
    · cases gives_valueOf shown
    · cases gives_valueOf shown
  | bool b => cases gives_valueOf shown
  | int n => cases gives_valueOf shown
  | bigInt p n => cases gives_valueOf shown
  | _ => cases (gives_ret.1 shown).1

end Paths

/-- `QuickJSWrapper.execute(QuickJSWrapper.compile(script))`. -/
def Java.executeCompiled (script fileName : JavaString) (fuel : Nat) : JavaProgram :=
  (ApiCall.compile (some script) (some fileName) false).program.bind fun a =>
    match a with
    | .text code => (ApiCall.execute code fuel).program
    | a => .ret a

/-- A script that completes normally, in a state of its context. -/
structure ScriptCase where
  engine : ScriptEngine
  thread : ThreadId
  script : JavaString
  fileName : JavaString
  fuel : Nat
  start : ScriptState engine
  outside : start.world.javaException = none
  /-- There is memory for function bytecode. -/
  room : ∃ p, start.Free p
  code : engine.Code
  compiles : engine.compile (ModifiedUtf8.encode script) (ModifiedUtf8.encode fileName) = some code
  normal : ∀ v z, engine.run code start.side v z → v.isException = false

namespace ScriptCase

def Evaluates (r : ScriptCase) (a : Answer) (s : ScriptState r.engine) : Prop :=
  Gives (r.engine.javaMeaning r.thread)
    (ApiCall.evaluate (some r.script) (some r.fileName) false r.fuel).program r.start a s

def Executes (r : ScriptCase) (a : Answer) (s : ScriptState r.engine) : Prop :=
  Gives (r.engine.javaMeaning r.thread) (Java.executeCompiled r.script r.fileName r.fuel) r.start a s

/-- Both come to the same answers, a function with the same receiver, and leave the same states. -/
def Agrees (r : ScriptCase) : Prop :=
  ∀ a x, (∃ s, r.Evaluates a s ∧ s.unrecorded = x) ↔ ∃ s, r.Executes a s ∧ s.unrecorded = x

/-- The script comes to this value, and the jobs after it are executed, without an exception for
    Java. -/
def Completes (r : ScriptCase) (v : JSValue) (s : ScriptState r.engine) : Prop :=
  s.world.javaException = none ∧ ∃ z, r.engine.run r.code r.start.side v z ∧
    Gives r.engine.meaning (executePendingJobLoop (.ofThread r.thread) r.fuel) (r.start.After z) true s

/-- The value of the script is no function. -/
def NoFunction (r : ScriptCase) : Prop :=
  ∀ p s, r.Completes (.object p) s → r.engine.isFunction s.js p = false

variable {r : ScriptCase} {a : Answer} {s : ScriptState r.engine}

def Concludes (r : ScriptCase) (thisObj : JSValue) (a : Answer) (s : ScriptState r.engine) : Prop :=
  ∃ v z o u, r.engine.run r.code r.start.side v z ∧
    Gives r.engine.meaning (concluding r.thread r.fuel thisObj v) (r.start.After z) o u ∧
    a = seen (.javaReturn o) u.world ∧ s = { u with world := { u.world with javaException := none } }

theorem gives_native {E : ScriptEngine} {t : ThreadId} {op : NativeOp} {x y : ScriptState E} {a : Answer} :
    Gives (E.javaMeaning t) (Java.native op) x a y ↔ E.NativeReply t op x a y := by
  rw [Java.native, gives_enter]
  constructor
  · rintro ⟨b, u, reply, last⟩
    obtain ⟨rfl, rfl⟩ := gives_ret.1 last
    exact reply
  · exact fun reply => ⟨a, y, reply, gives_ret.2 ⟨rfl, rfl⟩⟩

theorem reply_javaResult {E : ScriptEngine} {t : ThreadId} {op : NativeOp} {x y : ScriptState E} {a : Answer}
    {p : Program (Option JavaObject)} (program : op.program t = javaResult p)
    (outside : x.world.javaException = none) : E.NativeReply t op x a y ↔
      ∃ o u, Gives E.meaning p x o u ∧ a = seen (.javaReturn o) u.world ∧
        y = { u with world := { u.world with javaException := none } } := by
  unfold ScriptEngine.NativeReply
  rw [program]
  constructor
  · rintro ⟨h, b, u, -, run, rfl, rfl⟩
    obtain ⟨o, v, first, last⟩ := gives_bind.1 ⟨h, run⟩
    obtain ⟨rfl, rfl⟩ := gives_ret.1 last
    exact ⟨o, _, first, rfl, rfl⟩
  · rintro ⟨o, u, first, rfl, rfl⟩
    have answered : Gives E.meaning (javaResult p) x (.javaReturn o) u :=
      gives_bind.2 ⟨o, u, first, gives_ret.2 ⟨rfl, rfl⟩⟩
    obtain ⟨h, run⟩ := answered
    exact ⟨h, .javaReturn o, u, outside, run, rfl, rfl⟩

theorem evaluates_iff : r.Evaluates a s ↔ r.Concludes (.object r.engine.globalObj) a s := by
  refine gives_native.trans ((reply_javaResult rfl r.outside).trans ?_)
  constructor
  · rintro ⟨o, u, evaluated, rfl, rfl⟩
    obtain ⟨v, z, ran, concluded⟩ := (gives_evaluate r.compiles r.normal).1 evaluated
    exact ⟨v, z, o, u, ran, concluded, rfl, rfl⟩
  · rintro ⟨v, z, o, u, ran, concluded, rfl, rfl⟩
    exact ⟨o, u, (gives_evaluate r.compiles r.normal).2 ⟨v, z, ran, concluded⟩, rfl, rfl⟩

theorem reply_compile : r.engine.NativeReply r.thread (.compile (some r.script) (some r.fileName) false)
    r.start a s ↔ a = .text (some (r.engine.writeObject r.code)) ∧ s = r.start := by
  have outside : ({ r.start with world := { r.start.world with javaException := none } } :
      ScriptState r.engine) = r.start := by
    rw [← r.outside]
  have answered : seen (.text (some (r.engine.writeObject r.code))) r.start.world =
      .text (some (r.engine.writeObject r.code)) := by
    unfold seen
    rw [r.outside]
  constructor
  · rintro ⟨h, b, u, -, run, rfl, rfl⟩
    obtain ⟨bytes, v, compiled, last⟩ := gives_bind.1 ⟨h, run⟩
    obtain ⟨rfl, rfl⟩ := gives_ret.1 last
    obtain ⟨-, rfl, rfl⟩ := (gives_compile r.compiles).1 compiled
    exact ⟨answered, outside⟩
  · rintro ⟨rfl, rfl⟩
    have compiled : Gives r.engine.meaning ((NativeOp.compile (some r.script) (some r.fileName) false).program
        r.thread) r.start (.text (some (r.engine.writeObject r.code))) r.start :=
      gives_bind.2 ⟨_, _, (gives_compile r.compiles).2 ⟨r.room, rfl, rfl⟩, gives_ret.2 ⟨rfl, rfl⟩⟩
    obtain ⟨h, run⟩ := compiled
    exact ⟨h, _, _, r.outside, run, answered.symm, outside.symm⟩

theorem executes_iff : r.Executes a s ↔ ∃ p, r.start.Free p ∧ r.Concludes (.functionBytecode p) a s := by
  have reads := r.engine.read_write r.code
  have executed : r.Executes a s ↔ r.engine.NativeReply r.thread
      (.execute (some (r.engine.writeObject r.code)) r.fuel) r.start a s := by
    refine gives_bind.trans ?_
    constructor
    · rintro ⟨b, u, first, rest⟩
      obtain ⟨rfl, rfl⟩ := reply_compile.1 (gives_native.1 first)
      exact gives_native.1 rest
    · intro reply
      exact ⟨_, _, gives_native.2 (reply_compile.2 ⟨rfl, rfl⟩), gives_native.2 reply⟩
  refine executed.trans ((reply_javaResult rfl r.outside).trans ?_)
  constructor
  · rintro ⟨o, u, ended, rfl, rfl⟩
    obtain ⟨p, free, v, z, ran, concluded⟩ := (gives_execute reads r.normal).1 ended
    exact ⟨p, free, v, z, o, u, ran, concluded, rfl, rfl⟩
  · rintro ⟨p, free, v, z, o, u, ran, concluded, rfl, rfl⟩
    exact ⟨o, u, (gives_execute reads r.normal).2 ⟨p, free, v, z, ran, concluded⟩, rfl, rfl⟩

theorem concludes_alike (noFunction : r.NoFunction) {thisObj other : JSValue}
    (concludes : r.Concludes thisObj a s) : ∃ s', r.Concludes other a s' ∧ s'.unrecorded = s.unrecorded := by
  obtain ⟨v, z, o, u, ran, concluded, rfl, rfl⟩ := concludes
  obtain ⟨finished, w, jobs, rest⟩ := gives_bind.1 concluded
  cases finished with
  | false => exact ⟨_, ⟨v, z, o, u, ran, gives_bind.2 ⟨false, w, jobs, rest⟩, rfl, rfl⟩, rfl⟩
  | true =>
    by_cases function : ∃ p, v = .object p ∧ r.engine.isFunction w.js p = true
    · obtain ⟨p, rfl, function⟩ := function
      obtain ⟨rfl, rfl⟩ := (shows_function function).1 rest
      have pending : w.world.javaException ≠ none := by
        intro none
        have other := noFunction p w ⟨none, z, ran, jobs⟩
        rw [function] at other
        cases other
      obtain ⟨e, pending⟩ := Option.ne_none_iff_exists'.1 pending
      have shown := (@shows_function r.engine w _ _ (.ofThread r.thread) other p function).2 ⟨rfl, rfl⟩
      refine ⟨_, ⟨_, z, _, _, ran, gives_bind.2 ⟨true, w, jobs, shown⟩, ?_, rfl⟩, rfl⟩
      simp only [seen, ScriptState.kept, ScriptState.recorded, pending]
    · have alike : ∀ p, v = .object p → r.engine.isFunction w.js p = false := by
        rintro p rfl
        exact Bool.eq_false_iff.2 fun here => function ⟨p, rfl, here⟩
      exact ⟨_, ⟨v, z, o, u, ran, gives_bind.2 ⟨true, w, jobs, (shown_alike alike).1 rest⟩, rfl, rfl⟩, rfl⟩

theorem apart {p : Addr} (free : r.start.Free p) : p ≠ r.engine.globalObj := by
  rintro rfl
  exact free.1 (r.engine.global_occupied _)

theorem concluded_receiver {thisObj : JSValue} {id : Nat} {pointer objPointer : Addr}
    (concludes : r.Concludes thisObj (.javaReturn (some (.handle id .jsFunction pointer objPointer))) s) :
    objPointer = thisObj.pointer := by
  obtain ⟨v, z, o, u, -, concluded, answer, -⟩ := concludes
  have shown : o = some (.handle id .jsFunction pointer objPointer) := by
    unfold seen at answer
    split at answer
    · cases answer
    · cases answer
      rfl
  subst shown
  obtain ⟨finished, w, -, rest⟩ := gives_bind.1 concluded
  cases finished with
  | true => exact shown_receiver rest
  | false =>
    obtain ⟨_, _, -, last⟩ := gives_bind.1 rest
    cases (gives_ret.1 last).1

theorem concludes_function {p : Addr} (completes : r.Completes (.object p) s)
    (function : r.engine.isFunction s.js p = true) (thisObj : JSValue) :
    ∃ id u, r.Concludes thisObj (.javaReturn (some (.handle id .jsFunction p thisObj.pointer))) u := by
  obtain ⟨quiet, z, ran, jobs⟩ := completes
  let h : Handle := ⟨.jsFunction, p, thisObj.pointer, s.world.serialAt p, false, false⟩
  have shown : Gives r.engine.meaning (toJavaObject (.ofThread r.thread) thisObj (.object p) true) s
      (some (.handle s.world.handles.length .jsFunction p thisObj.pointer)) ((s.recorded h).kept p) :=
    (shows_function function).2 ⟨rfl, rfl⟩
  refine ⟨s.world.handles.length, _, _, z, _, _, ran, gives_bind.2 ⟨true, s, jobs, shown⟩, ?_, rfl⟩
  simp only [seen, ScriptState.kept, ScriptState.recorded, quiet]

/-- The receiver of a function would be the global object for one and the place of the code for
    the other. -/
theorem noFunction_of_agrees (agrees : r.Agrees) : r.NoFunction := by
  intro p s completes
  by_contra function
  replace function := Bool.eq_true_of_not_eq_false function
  obtain ⟨id, u, concludes⟩ := concludes_function completes function (.object r.engine.globalObj)
  obtain ⟨u', executed, -⟩ := (agrees _ _).1 ⟨u, evaluates_iff.2 concludes, rfl⟩
  obtain ⟨q, free, concludes'⟩ := executes_iff.1 executed
  exact apart free (concluded_receiver concludes').symm

theorem agrees_of_noFunction (noFunction : r.NoFunction) : r.Agrees := by
  intro a x
  constructor
  · rintro ⟨s, evaluated, rfl⟩
    obtain ⟨p, free⟩ := r.room
    obtain ⟨s', concludes, same⟩ := concludes_alike noFunction (evaluates_iff.1 evaluated)
    exact ⟨s', executes_iff.2 ⟨p, free, concludes⟩, same⟩
  · rintro ⟨s, executed, rfl⟩
    obtain ⟨p, -, executed⟩ := executes_iff.1 executed
    obtain ⟨s', concludes, same⟩ := concludes_alike noFunction executed
    exact ⟨s', evaluates_iff.2 concludes, same⟩

end ScriptCase

/-- Code comes to what the script comes to exactly if that is no function. -/
theorem compiled_agrees_iff (r : ScriptCase) : r.Agrees ↔ r.NoFunction :=
  ⟨ScriptCase.noFunction_of_agrees, ScriptCase.agrees_of_noFunction⟩

/-- An engine whose scripts know one function, `f`, at the address 2. -/
def engineOfFunction : ScriptEngine where
  State := Unit
  Code := List UInt8
  globalObj := 1
  compile source _ := some source
  run code x v y := v = (if code = ascii "f" then .object 2 else .undefined) ∧ y = x
  writeObject code := 1 :: code
  readObject
    | [] => none
    | _ :: code => some code
  read_write _ := rfl
  write_nonempty _ := nofun
  isFunction _ p := p = 2
  occupied _ p := p = 1 ∨ p = 2
  global_occupied _ := Or.inl rfl
  prims
    | .jobListEmpty, s => some (.bool true, s)
    | _, s => some (.unit, s)
  calls _ x a y := a = .unit ∧ y = x

/-- The script `f` comes to a function, whose receiver is the global object or the place its code
    was read to. -/
theorem compiled_function_differs : ¬ ∀ r : ScriptCase, r.Agrees := by
  intro agrees
  let world : World := { World.fresh 1 fun _ => [] with created := true }
  let start : ScriptState engineOfFunction := ⟨world, (), fun _ => none⟩
  have free : start.Free 3 := by
    refine ⟨?_, rfl⟩
    rintro (same | same)
    · cases same
    · cases same
  let r : ScriptCase := ⟨engineOfFunction, 0, [0x66], [], 1, start, rfl, ⟨3, free⟩, ascii "f", rfl,
    by rintro v z ⟨rfl, -⟩; rfl⟩
  have jobs : Gives engineOfFunction.meaning (executePendingJobLoop (.ofThread 0) 1) start true start :=
    ⟨_, .prim rfl (.prim rfl (.prim rfl (.prim rfl (.ret true start))))⟩
  have other := ScriptCase.noFunction_of_agrees (agrees r) 2 start ⟨rfl, start.side, ⟨rfl, rfl⟩, jobs⟩
  cases other

end QuickJSBridge
