import QuickJSBridge.ArgumentReferences

/- What a Java callback's outcome becomes in JS. The JVM and the engine each keep an exception
   of their own; jsFuncCall looks at neither of them and goes by the object it was given. -/
namespace QuickJSBridge
open HostProgram ReentrantMachine

section Outcomes

/-- What the callback returned, and the state it left. -/
def javaAnswer? : BridgeItem → Option (Option JavaObject × World)
  | .call (.java _ _) (.javaReturn o) s => some (o, s)
  | _ => none

def Produces (h : BridgeHistory) : Prop :=
  ∃ o s, h.findSome? javaAnswer? = some (o, s) ∧ supported o = true

/-- Calls into the JVM apart from those that handle exceptions. The Java method
    callFunctionBack begins by looking the callback up. -/
def isJNICall : BridgeItem → Bool
  | .prim c _ _ =>
    match c with
    | .getStringUTFChars _ _ | .newStringUTF _ _ | .valueOf _ _ | .unbox _ _ => true
    | .newObject _ _ _ _ _ | .hashCode _ _ | .callFunctionMapGet _ => true
    | _ => false
  | _ => false

def CallsClear : World → BridgeHistory → Prop
  | _, [] => True
  | w, item :: h => (isJNICall item = true → w.javaException = none) ∧ CallsClear item.after h

/-- The engine is told exactly of callbacks that produce nothing, with a JS exception to go
    with it, and the JVM is left alone while it has an exception of its own. -/
structure OutcomePassed (w : World) (h : BridgeHistory) (out : Outcome JSValue) (u : World) :
    Prop where
  returns : ∃ v, out = .returned v ∧ (v = .exception ↔ ¬ Produces h)
  pending : out = .returned .exception → u.exception ≠ .null
  clear : CallsClear w h

/-- What the callback returned can be converted, or it cannot and the engine happens to have an
    exception pending. -/
def Passable : Option (Option JavaObject × World) → Prop
  | some (o, s) => convertible o = true ∨ (supported o = false ∧ s.exception ≠ .null)
  | none => False

end Outcomes

section Pieces
variable {w u : World} {h : BridgeHistory} {R : Type}

def Prim.throws : Prim → Bool
  | .throw _ _ => true
  | _ => false

theorem callsClear_append {p : Program R} {out : Outcome R} {later : BridgeHistory}
    (run : Exec bridge.meaning p w h out u) :
    CallsClear w (h ++ later) ↔ CallsClear w h ∧ CallsClear u later := by
  induction run with
  | ret r s => simp [CallsClear]
  | crash s => simp [CallsClear]
  | prim acts rest ih =>
    simp only [List.cons_append, CallsClear, Item.after, ih, and_assoc]
  | enter answers rest ih =>
    simp only [List.cons_append, CallsClear, Item.after, ih, and_assoc]

theorem exec_silent {p : Program R} {out : Outcome R}
    (within : p.Within (fun c => c.throws = false) IsCalm)
    (run : Exec bridge.meaning p w h out u) :
    u.javaException = w.javaException ∧ (w.javaException = none → CallsClear w h) ∧
      h.findSome? javaAnswer? = none := by
  induction p generalizing w h with
  | ret r =>
    obtain ⟨rfl, -, rfl⟩ := exec_ret run
    exact ⟨rfl, fun _ => trivial, rfl⟩
  | spin => cases run
  | crash =>
    obtain ⟨rfl, -, rfl⟩ := exec_crash run
    exact ⟨rfl, fun _ => trivial, rfl⟩
  | prim c next ih =>
    obtain ⟨a, s, rest, acts, tail, rfl⟩ := exec_prim run
    obtain ⟨kept, clear, none⟩ := ih a (within.2 a) tail
    have happens : Happens bridge.meaning w (.prim c a s) := acts
    have other : setsJavaException (.prim c a s) = false := by
      cases c with
      | throw env e => cases within.1
      | _ => rfl
    have here : s.javaException = w.javaException := javaException_alone happens other
    exact ⟨kept.trans here, fun now => ⟨fun _ => now, clear (here.trans now)⟩, none⟩
  | enter e next ih =>
    obtain ⟨a, s, rest, answers, tail, rfl⟩ := exec_enter run
    obtain ⟨kept, clear, none⟩ := ih a (within.2 a) tail
    obtain ⟨call, rfl, noJS⟩ := within.1
    have here : s.javaException = w.javaException :=
      congrArg Agenda.javaException (reply_quiet noJS answers)
    exact ⟨kept.trans here, fun now => ⟨fun _ => now, clear (here.trans now)⟩, none⟩

theorem silent_callbackArguments (thisVal : JSValue) (argv : List JSValue) :
    (Wrapper.callbackArguments thisVal argv).Within (fun c => c.throws = false) IsCalm := by
  induction argv with
  | nil => trivial
  | cons v argv ih =>
    apply Prog.within_bind
    · apply Prog.within_mono (makes_toJavaObject .saved thisVal v false) _ fun _ => calm_marshalling
      intro c makes
      cases c <;> first | rfl | cases makes
    · exact fun arg => Prog.within_bind ih fun args => trivial

theorem silent_toJSValue {o : Option JavaObject} (can : supported o = true) (env : JNIEnv) :
    (toJSValue env o).Within (fun c => c.throws = false) IsCalm := by
  apply Prog.within_mono (makes_toJSValue env o) _ fun _ => calm_marshalling
  rintro c (makes | ⟨cannot, -⟩)
  · cases c <;> first | rfl | cases makes
  · cases can.symm.trans cannot

theorem supported_of_convertible {o : Option JavaObject} (can : convertible o = true) :
    supported o = true := by
  cases o with
  | none => rfl
  | some o => cases o <;> first | rfl | cases can

/-- A Java method that returns leaves no exception behind, since the native methods it calls
    hand theirs over to it. -/
theorem reply_java_clear {f : JSCallFunction} {args : List (Option JavaObject)}
    {o : Option JavaObject} (reply : bridge.Reply (.java f args) w (.javaReturn o) u)
    (clear : w.javaException = none) : u.javaException = none := by
  apply Bridge.reply_by_calls (fun s => s.javaException = none) reply
  · intro s leaves
    cases leaves
    exact clear
  · intro v s s' now acts
    replace acts : event v (some (.java f args)) s = some s' := acts
    cases v with
    | engine e => cases acts
    | spawn t call =>
      cases of_ite_some acts
      exact now
    | javaStep t =>
      simp only [event] at acts
      replace acts := of_ite_some acts
      split at acts
      next c next frames found =>
        cases acts
        cases c <;> exact now
      next => cases acts
    | retire t =>
      simp only [event] at acts
      replace acts := of_ite_some acts
      split at acts
      next =>
        cases acts
        exact now
      next => cases acts
  · intro o s s' p trace b t s'' now called starts run done
    cases o with
    | jsFnCallback func thisObj argv => cases called
    | native t =>
      replace done : finishNative t b _ = some s'' := done
      unfold finishNative at done
      split at done
      next =>
        cases done
        rfl
      next => cases done
  · intro s s' now back
    replace back : (if s.knows o ∧ s.monitor.all (fun owner => s.idle owner.1) then some s
      else none) = some s' := back
    cases of_ite_some back
    exact now

theorem reply_java {f : JSCallFunction} {args : List (Option JavaObject)} {a : Answer}
    (reply : bridge.Reply (.java f args) w a u) :
    (∃ o, a = .javaReturn o) ∨ ∃ e, a = .javaThrow e := by
  obtain ⟨s, s', labels, -, -, back⟩ := reply
  replace back : deliver (.java f args) a s' = some u := back
  cases a with
  | javaReturn o => exact Or.inl ⟨o, rfl⟩
  | javaThrow e => exact Or.inr ⟨e, rfl⟩
  | _ => cases back

/-- What jsFuncCall gets to see of a call of the Java method: an exception, also that of a
    missing callback, looks like a callback that returned null. -/
inductive CalledBack (w : World) (h : BridgeHistory) (u : World) : Option JavaObject → Prop
  | answered {o : Option JavaObject} {s : World} (found : h.findSome? javaAnswer? = some (o, s))
      (clear : w.javaException = none → u.javaException = none)
      (same : u.exception = s.exception) : CalledBack w h u o
  | failed (nothing : h.findSome? javaAnswer? = none) : CalledBack w h u none

theorem exec_callFunctionBack {callFunctionId : Int32} {args : List (Option JavaObject)}
    {out : Outcome (Option JavaObject)}
    (run : Exec bridge.meaning (Wrapper.callFunctionBack callFunctionId args) w h out u) :
    ∃ o, out = .returned o ∧ (CallsClear w h ↔ w.javaException = none) ∧ CalledBack w h u o := by
  obtain ⟨a, s, rest, acts, tail, rfl⟩ := exec_prim run
  cases acts
  cases found : w.callFunctionMap callFunctionId with
  | none =>
    simp only [found, Prog.bind_ret] at tail
    obtain ⟨b, x, rest', throws, last, rfl⟩ := exec_prim tail
    obtain ⟨rfl, rfl, -⟩ := exec_ret last
    exact ⟨none, rfl, by simp [CallsClear, isJNICall], .failed rfl⟩
  | some f =>
    simp only [found, Prog.bind_ret] at tail
    obtain ⟨a, x, rest', answers, back, rfl⟩ := exec_enter tail
    rcases reply_java answers with ⟨o, rfl⟩ | ⟨e, rfl⟩
    · have clear := reply_java_clear answers
      have plain : Exec bridge.meaning (.ret o) x rest' out u → ∃ o', out = .returned o' ∧
          (CallsClear w (.prim (.callFunctionMapGet callFunctionId)
              (.javaReturn (some (.callFunction f))) w ::
            .call (.java f args) (.javaReturn o) x :: rest') ↔ w.javaException = none) ∧
          CalledBack w (.prim (.callFunctionMapGet callFunctionId)
              (.javaReturn (some (.callFunction f))) w ::
            .call (.java f args) (.javaReturn o) x :: rest') u o' := by
        intro last
        obtain ⟨rfl, rfl, rfl⟩ := exec_ret last
        exact ⟨o, rfl, by simp [CallsClear, isJNICall], .answered rfl clear rfl⟩
      cases o with
      | none => exact plain back
      | some r =>
        cases r with
        | callFunction g =>
          obtain ⟨b, y, rest'', puts, last, rfl⟩ := exec_prim back
          cases puts
          obtain ⟨rfl, rfl, rfl⟩ := exec_ret last
          exact ⟨_, rfl, by simp [CallsClear, isJNICall], .answered rfl clear rfl⟩
        | _ => exact plain back
    · obtain ⟨rfl, rfl, -⟩ := exec_ret back
      exact ⟨none, rfl, by simp [CallsClear, isJNICall], .failed rfl⟩

def returnConverted (result : Option JavaObject) : Program JSValue :=
  (toJSValue .saved result).bind fun jsValue =>
    ((act (.dupValue jsValue)).when (jsValue.isObject && !Wrapper.isCallFunction result)).bind
      fun _ => .ret jsValue

theorem silent_returnConverted {result : Option JavaObject} (can : supported result = true) :
    (returnConverted result).Within (fun c => c.throws = false) IsCalm := by
  apply Prog.within_bind (silent_toJSValue can .saved)
  intro jsValue
  refine Prog.within_bind ?_ fun _ => trivial
  cases jsValue.isObject && !Wrapper.isCallFunction result with
  | true => exact ⟨rfl, fun _ => trivial⟩
  | false => trivial

theorem exec_returnConverted {result : Option JavaObject} {out : Outcome JSValue}
    (run : Exec bridge.meaning (returnConverted result) w h out u) :
    ∃ v, out = .returned v ∧ (v = .exception ↔ convertible result = false) ∧
      (w.javaException = none → CallsClear w h) ∧ (supported result = false → u.exception = w.exception) ∧
      h.findSome? javaAnswer? = none := by
  cases can : supported result with
  | true =>
    obtain ⟨-, clear, nothing⟩ := exec_silent (silent_returnConverted can) run
    rcases exec_bind run with ⟨v, s, before, after, first, last, rfl⟩ | ⟨first, -⟩
    · obtain ⟨v', same, converts⟩ := exec_toJSValue first
      cases same
      have returns : out = .returned v := by
        cases dups : v.isObject && !Wrapper.isCallFunction result with
        | true =>
          rw [dups] at last
          obtain ⟨a, x, rest, acts, tail, rfl⟩ := exec_prim last
          exact (exec_ret tail).2.1
        | false =>
          rw [dups] at last
          exact (exec_ret last).2.1
      refine ⟨v, returns, ?_, clear, fun cannot => absurd cannot Bool.noConfusion, nothing⟩
      have failed : decide (v = .exception) = !convertible result := converts.failed
      constructor
      · intro thrown
        rw [decide_eq_true thrown] at failed
        simpa using failed.symm
      · intro cannot
        rw [cannot] at failed
        exact of_decide_eq_true failed
    · obtain ⟨v, dead, -⟩ := exec_toJSValue first
      cases dead
  | false =>
    cases result with
    | none => cases can
    | some o =>
      cases o with
      | other className =>
        obtain ⟨a, s, rest, acts, tail, rfl⟩ := exec_prim run
        cases acts
        obtain ⟨rfl, rfl, rfl⟩ := exec_ret tail
        refine ⟨_, rfl, iff_of_true rfl rfl, fun _ => ⟨?_, trivial⟩, fun _ => rfl, rfl⟩
        intro calls
        cases calls
      | _ => cases can

def prepared (func thisObj : JSValue) (argv : List JSValue) :
    Program (Int32 × List (Option JavaObject)) :=
  (askInt (.getFuncCallbackId func)).bind fun callbackId => (act .getRuntimeOpaque).bind fun _ =>
    (Wrapper.callbackArguments thisObj argv).bind fun args => .ret (callbackId, args)

theorem silent_prepared (func thisObj : JSValue) (argv : List JSValue) :
    (prepared func thisObj argv).Within (fun c => c.throws = false) IsCalm := by
  refine Prog.within_bind ⟨rfl, fun _ => trivial⟩ fun callbackId => ?_
  refine Prog.within_bind ⟨rfl, fun _ => trivial⟩ fun _ => ?_
  exact Prog.within_bind (silent_callbackArguments thisObj argv) fun _ => trivial

theorem jsFnCallback_eq (func thisObj : JSValue) (argv : List JSValue) :
    jsFnCallback func thisObj argv = (prepared func thisObj argv).bind fun call =>
      (Wrapper.callFunctionBack call.1 call.2).bind returnConverted := by
  simp only [prepared, Prog.bind_assoc, Prog.bind_ret]
  rfl

end Pieces

section Callbacks
variable {w u : World} {h : BridgeHistory}

/-- The outcome of a callback is passed on exactly if no Java exception is pending when it is
    called, and it returns what can be converted; or what cannot, while the engine has
    an exception pending already. -/
theorem callback_passed_iff {func thisObj : JSValue} {argv : List JSValue} {out : Outcome JSValue}
    (run : Exec bridge.meaning (jsFnCallback func thisObj argv) w h out u) :
    OutcomePassed w h out u ↔ w.javaException = none ∧ Passable (h.findSome? javaAnswer?) := by
  rw [jsFnCallback_eq] at run
  rcases exec_bind run with ⟨⟨callbackId, args⟩, x, before, rest, first, run', rfl⟩ | ⟨first, rfl⟩
  · obtain ⟨kept, clear, nothing⟩ := exec_silent (silent_prepared func thisObj argv) first
    rcases exec_bind run' with ⟨o, y, mid, after, call, last, rfl⟩ | ⟨call, -⟩
    · obtain ⟨o', same, jni, back⟩ := exec_callFunctionBack call
      cases same
      obtain ⟨v, rfl, failed, clear', unchanged, nothing'⟩ := exec_returnConverted last
      have clears : CallsClear w (before ++ (mid ++ after)) ↔
          CallsClear w before ∧ CallsClear x mid ∧ CallsClear y after := by
        rw [callsClear_append first, callsClear_append call]
      have found : (before ++ (mid ++ after)).findSome? javaAnswer? = mid.findSome? javaAnswer? := by
        rw [List.findSome?_append, List.findSome?_append, nothing, nothing']
        simp
      cases back with
      | answered answered kept' same =>
        have produces : Produces (before ++ (mid ++ after)) ↔ supported o = true := by
          rw [Produces, found, answered]
          simp
        rw [found, answered]
        constructor
        · rintro ⟨⟨v', same', returns⟩, pending, calls⟩
          cases same'
          refine ⟨kept ▸ jni.1 (clears.1 calls).2.1, ?_⟩
          cases can : convertible o with
          | true => exact Or.inl can
          | false =>
            have thrown : v = .exception := failed.2 can
            have cannot : supported o = false := by
              apply Bool.eq_false_iff.2
              exact fun can => returns.1 thrown (produces.2 can)
            refine Or.inr ⟨cannot, ?_⟩
            rw [← same, ← unchanged cannot]
            exact pending (congrArg Outcome.returned thrown)
        · rintro ⟨now, passable⟩
          have quiet : CallsClear w (before ++ (mid ++ after)) := by
            have there := kept.trans now
            exact clears.2 ⟨clear now, jni.2 there, clear' (kept' there)⟩
          rcases passable with can | ⟨cannot, pending⟩
          · have fine : v ≠ .exception := by
              intro thrown
              cases can.symm.trans (failed.1 thrown)
            refine ⟨⟨v, rfl, iff_of_false fine (not_not_intro ?_)⟩, ?_, quiet⟩
            · exact produces.2 (supported_of_convertible can)
            · rintro ⟨⟩
              exact (fine rfl).elim
          · have thrown : v = .exception := by
              apply failed.2
              apply Bool.eq_false_iff.2
              intro can
              cases (supported_of_convertible can).symm.trans cannot
            refine ⟨⟨v, rfl, iff_of_true thrown ?_⟩, fun _ => ?_, quiet⟩
            · rw [produces, cannot]
              exact Bool.false_ne_true
            · rw [unchanged cannot, same]
              exact pending
      | failed none =>
        rw [found, none]
        constructor
        · rintro ⟨⟨v', same', returns⟩, -, -⟩
          cases same'
          -- the null reference is converted like any other
          have silent : ¬ Produces (before ++ (mid ++ after)) := by
            rw [Produces, found, none]
            simp
          cases failed.1 (returns.2 silent)
        · rintro ⟨-, impossible⟩
          exact impossible.elim
    · obtain ⟨o, dead, -⟩ := exec_callFunctionBack call
      cases dead
  · obtain ⟨-, -, nothing⟩ := exec_silent (silent_prepared func thisObj argv) first
    constructor
    · rintro ⟨⟨v, dead, -⟩, -, -⟩
      cases dead
    · rintro ⟨-, passable⟩
      rw [nothing] at passable
      cases passable

/-- Thread 0 makes a callback a property of the global object, and enters a script. -/
def entersScript : List BridgeLabel :=
  constructing ++
  ([.event (.spawn 0 .getGlobalObject), .call (.native 0), .tau, .tau, .tau, .answer .unit, .tau,
    .event (.retire 0),
    .event (.spawn 0 (.setProperty (some (.handle 0 .jsObject 1 0)) (some []) (some (.callFunction ⟨0, 7⟩)))),
    .event (.javaStep 0), .call (.native 0), .tau, .tau, .event (.engine (.alloc 3 (some .function))),
    .answer (.value (.object 3)), .tau, .tau, .tau, .answer (.int 1), .tau, .answer (.int 1), .tau,
    .event (.retire 0),
    .event (.spawn 0 (.evaluate (some []) (some []) false 1)), .call (.native 0), .tau, .tau,
    .tau] : List BridgeLabel)

/-- The script calls it, and it returns true. -/
theorem value_passed : ∃ (c d : BridgeConfig) (h : BridgeHistory) (v : JSValue) (u : World),
    bridge.run entersScript (initial 1 fun _ => []) = some c ∧
    bridge.step (.call (.jsFnCallback 3 .undefined [])) c = some d ∧
    Exec bridge.meaning (jsFnCallback (.object 3) .undefined []) c.state h (.returned v) u ∧
    (OutcomePassed c.state h (.returned v) u ↔
      c.state.javaException = none ∧ Passable (h.findSome? javaAnswer?)) := by
  have body : ∃ c d, bridge.run entersScript (initial 1 fun _ => []) = some c ∧
      bridge.step (.call (.jsFnCallback 3 .undefined [])) c = some d ∧
      Can bridge.meaning (jsFnCallback (.object 3) .undefined []) [] c.state fun _ _ _ => True := by
    refine ⟨_, _, rfl, rfl, ?_⟩
    refine can_prim rfl (can_prim rfl (can_prim rfl ?_))
    refine can_enter (a := .javaReturn (some (.boolean true))) ⟨_, _, [], rfl, rfl, rfl⟩ ?_
    refine can_prim rfl ?_
    exact can_ret trivial
  obtain ⟨c, d, ran, calls, v, h, u, run, -⟩ := body
  exact ⟨c, d, h, v, u, ran, calls, run, callback_passed_iff run⟩

/-- The callback throws, and the script goes on with undefined. -/
theorem thrown_exception_dropped : ¬ ∀ (globalObj : Addr) (jvm : List UInt8 → JavaString)
    (labels : List BridgeLabel) (c d : BridgeConfig) (func : Addr) (thisObj : JSValue)
    (argv : List JSValue) (h : BridgeHistory) (out : Outcome JSValue) (u : World),
    bridge.run labels (initial globalObj jvm) = some c →
    bridge.step (.call (.jsFnCallback func thisObj argv)) c = some d →
    Exec bridge.meaning (jsFnCallback (.object func) thisObj argv) c.state h out u →
    OutcomePassed c.state h out u := by
  intro complete
  have body : ∃ c d, bridge.run entersScript (initial 1 fun _ => []) = some c ∧
      bridge.step (.call (.jsFnCallback 3 .undefined [])) c = some d ∧
      Can bridge.meaning (jsFnCallback (.object 3) .undefined []) [] c.state
        fun v h _ => v = .undefined ∧ h.findSome? javaAnswer? = none := by
    refine ⟨_, _, rfl, rfl, ?_⟩
    refine can_prim rfl (can_prim rfl (can_prim rfl ?_))
    refine can_enter (a := .javaThrow (.thrownByJava 0)) ⟨_, _, [], rfl, rfl, rfl⟩ ?_
    exact can_ret ⟨rfl, rfl⟩
  obtain ⟨c, d, ran, calls, v, h, u, run, rfl, nothing⟩ := body
  obtain ⟨v, same, returns⟩ := (complete 1 _ _ c d 3 _ _ h _ u ran calls run).returns
  cases same
  rw [List.nil_append] at nothing
  have silent : ¬ Produces h := by
    rw [Produces, nothing]
    simp
  cases returns.2 silent

end Callbacks
end QuickJSBridge
