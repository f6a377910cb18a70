import QuickJSBridge.RepeatedFrees

/- What native methods do to `values` themselves. Each of those that return a result registers
   the object it makes a handle for, and freeValue removes an entry; what other code does to
   the table while it is inside one of their calls is a matter of its own. -/
namespace QuickJSBridge
open HostProgram ReentrantMachine

inductive Entry where
  | made (p : Nat)
  | freed (p : Nat)
  deriving DecidableEq

def Entry.act (table : Nat → Bool) : Entry → Nat → Bool
  | .made p => Function.update table p true
  | .freed p => Function.update table p false

def tableAfter (table : Nat → Bool) (entries : List Entry) : Nat → Bool := entries.foldl Entry.act table

def entriesFor : Option JavaObject → List Entry
  | some (.handle _ _ p _) => [.made p]
  | _ => []

def NativeOp.entries (op : NativeOp) (b : Answer) : List Entry :=
  match op with
  | .freeValue p => [.freed p]
  | _ => if op.returnsResult then entriesFor b.toJava else []

def Undisturbed : World → BridgeHistory → Prop
  | _, [] => True
  | _, .prim _ _ s :: h => Undisturbed s h
  | w, .call _ _ s :: h => s.values = w.values ∧ Undisturbed s h

section Effects
variable {R S : Type} {w u : World} {h : BridgeHistory}

theorem undisturbed_append {p : Program R} {out : Outcome R} {later : BridgeHistory}
    (run : Exec bridge.meaning p w h out u) :
    Undisturbed w (h ++ later) ↔ Undisturbed w h ∧ Undisturbed u later := by
  induction run with
  | ret r s => simp [Undisturbed]
  | crash s => simp [Undisturbed]
  | prim acts rest ih => simp only [List.cons_append, Undisturbed, ih]
  | enter answers rest ih => simp only [List.cons_append, Undisturbed, ih, and_assoc]

def Effect (p : Program R) (made : R → List Entry) : Prop :=
  ∀ w h r u, Exec bridge.meaning p w h (.returned r) u → Undisturbed w h →
    u.values = tableAfter w.values (made r)

def Prim.onTable : Prim → Bool
  | .valuesInsert _ | .valuesErase _ => true
  | _ => false

abbrev OffTable (p : Program R) : Prop := p.Within (fun c => c.onTable = false) fun _ => True

theorem exec_offTable {c : Prim} {a : Answer} {w' : World} (other : c.onTable = false)
    (acts : exec c w = some (a, w')) : w'.values = w.values := by
  funext p
  rw [exec_key acts]
  cases c with
  | valuesInsert q => cases other
  | valuesErase q => cases other
  | _ => rfl

theorem effect_offTable {p : Program R} (off : OffTable p) : Effect p fun _ => [] := by
  intro w h r u run quiet
  induction p generalizing w h with
  | ret r' =>
    obtain ⟨-, -, rfl⟩ := exec_ret run
    rfl
  | spin => cases run
  | crash =>
    obtain ⟨-, dead, -⟩ := exec_crash run
    cases dead
  | prim c next ih =>
    obtain ⟨a, s, rest, acts, tail, rfl⟩ := exec_prim run
    exact (ih a (off.2 a) s rest tail quiet).trans (exec_offTable off.1 acts)
  | enter e next ih =>
    obtain ⟨a, s, rest, -, tail, rfl⟩ := exec_enter run
    exact (ih a (off.2 a) s rest tail quiet.2).trans quiet.1

theorem effect_after {p : Program R} {f : R → Program S} {made : S → List Entry} (off : OffTable p)
    (rest : ∀ r, Effect (f r) made) : Effect (p.bind f) made := by
  intro w h r u run quiet
  rcases exec_bind run with ⟨x, s, before, after, first, second, rfl⟩ | ⟨-, dead⟩
  · obtain ⟨early, late⟩ := (undisturbed_append first).1 quiet
    have same : s.values = w.values := effect_offTable off w before x s first early
    rw [rest x s after r u second late, same]
  · cases dead

theorem effect_before {p : Program R} {f : R → Program S} {made : R → List Entry}
    {made' : S → List Entry} (first : Effect p made)
    (rest : ∀ r w h x u, Exec bridge.meaning (f r) w h (.returned x) u → Undisturbed w h →
      u.values = w.values ∧ made' x = made r) : Effect (p.bind f) made' := by
  intro w h x u run quiet
  rcases exec_bind run with ⟨r, s, before, after, one, two, rfl⟩ | ⟨-, dead⟩
  · obtain ⟨early, late⟩ := (undisturbed_append one).1 quiet
    obtain ⟨same, alike⟩ := rest r s after x u two late
    rw [same, alike, first w before r s one early]
  · cases dead

theorem effect_ret {p : Program R} {g : R → S} {made : R → List Entry} {made' : S → List Entry}
    (first : Effect p made) (alike : ∀ r, made' (g r) = made r) :
    Effect (p.bind fun r => .ret (g r)) made' := by
  apply effect_before first
  intro r w h x u run quiet
  obtain ⟨-, same, rfl⟩ := exec_ret run
  cases same
  exact ⟨rfl, alike r⟩

end Effects

section Parts
variable {R S : Type}

theorem offTable_bind {p : Program R} {f : R → Program S} (first : OffTable p)
    (rest : ∀ r, OffTable (f r)) : OffTable (p.bind f) :=
  Prog.within_bind first rest

theorem offTable_enterValue (e : EngineCall) : OffTable (enterValue e) := ⟨trivial, fun _ => trivial⟩

theorem offTable_freeValue (v : JSValue) : OffTable (freeValue v) := by
  have calm : Calm (fun _ => False) (freeValue v) := calm_freeValue v
  exact Prog.within_mono calm (fun _ none => none.elim) fun _ _ => trivial

theorem offTable_freeValues (values : List JSValue) : OffTable (Wrapper.freeValues values) := by
  induction values with
  | nil => trivial
  | cons v values ih => exact offTable_bind (offTable_freeValue v) fun _ => ih

theorem offTable_getJSErrorStr (error : JSValue) : OffTable (getJSErrorStr error) := by
  apply Prog.within_mono (asks_getJSErrorStr error) _ fun _ _ => trivial
  intro c asks
  cases c <;> first | rfl | cases asks

theorem offTable_getPendingErrorStr : OffTable getPendingErrorStr := by
  refine ⟨rfl, fun a => ?_⟩
  apply offTable_bind (offTable_getJSErrorStr a.toValue)
  exact fun text => offTable_bind (offTable_freeValue a.toValue) fun _ => trivial

theorem offTable_throwJSException (env : JNIEnv) (message : List Piece) :
    OffTable (throwJSException env message) := by
  refine offTable_bind ⟨rfl, fun _ => trivial⟩ fun pending => ?_
  split
  · trivial
  · exact ⟨rfl, fun _ => trivial⟩

theorem offTable_throwPendingJSException (env : JNIEnv) : OffTable (throwPendingJSException env) :=
  offTable_bind offTable_getPendingErrorStr fun error => offTable_throwJSException env error

theorem offTable_rejectionsText (fuel : Nat) (error : List Piece) : OffTable (rejectionsText fuel error) := by
  induction fuel generalizing error with
  | zero => trivial
  | succ fuel ih =>
    refine offTable_bind ⟨rfl, fun _ => trivial⟩ fun empty => ?_
    split
    · trivial
    · refine offTable_bind ⟨rfl, fun _ => trivial⟩ fun reason => ?_
      apply offTable_bind (offTable_getJSErrorStr reason)
      intro text
      apply offTable_bind (offTable_freeValue reason)
      exact fun _ => offTable_bind ⟨rfl, fun _ => trivial⟩ fun _ => ih _

theorem offTable_executePendingJob : OffTable executePendingJob := by
  refine offTable_bind ⟨rfl, fun _ => trivial⟩ fun empty => ?_
  split
  · trivial
  · refine offTable_bind ⟨rfl, fun _ => trivial⟩ fun _ => ?_
    apply offTable_bind (offTable_enterValue .jobFunc)
    exact fun res => offTable_bind (offTable_freeValue res) fun _ => trivial

theorem offTable_pendingJobRounds (env : JNIEnv) (fuel : Nat) : OffTable (pendingJobRounds env fuel) := by
  induction fuel with
  | zero => trivial
  | succ fuel ih =>
    apply offTable_bind offTable_executePendingJob
    intro err
    split
    · exact ih
    · split
      · apply offTable_bind offTable_getPendingErrorStr
        exact fun error => offTable_bind (offTable_throwJSException env error) fun _ => trivial
      · trivial

theorem offTable_executePendingJobLoop (env : JNIEnv) (fuel : Nat) :
    OffTable (executePendingJobLoop env fuel) := by
  refine offTable_bind ⟨rfl, fun _ => trivial⟩ fun pending => ?_
  split
  · trivial
  · apply offTable_bind (offTable_pendingJobRounds env fuel)
    intro finished
    split
    · refine offTable_bind ⟨rfl, fun _ => trivial⟩ fun _ => ?_
      apply offTable_bind
      · apply offTable_bind (offTable_rejectionsText fuel [])
        intro error
        split
        · trivial
        · exact offTable_bind (offTable_throwJSException .saved _) fun _ => trivial
      · exact fun _ => trivial
    · trivial

theorem offTable_toJSValue (env : JNIEnv) (o : Option JavaObject) : OffTable (toJSValue env o) := by
  apply Prog.within_mono (makes_toJSValue env o) _ fun _ _ => trivial
  rintro c (makes | ⟨-, name, rfl⟩)
  · cases c <;> first | rfl | cases makes
  · rfl

theorem offTable_callArguments (env : JNIEnv) (args : List (Option JavaObject))
    (arguments freeArguments : List JSValue) :
    OffTable (Wrapper.callArguments env args arguments freeArguments) := by
  induction args generalizing arguments freeArguments with
  | nil => trivial
  | cons arg args ih =>
    refine offTable_bind ⟨rfl, fun _ => trivial⟩ fun pending => ?_
    split
    · trivial
    · apply offTable_bind (offTable_toJSValue env arg)
      intro jsArg
      split
      · trivial
      · exact ih _ _

end Parts

section Results
variable {R : Type}

theorem effect_newHandle (env : JNIEnv) (thisObj : JSValue) (p : Addr) (borrowed : Bool)
    {w u : World} {h : BridgeHistory} {r : Option JavaObject}
    (run : Exec bridge.meaning (newHandle env thisObj (.object p) borrowed) w h (.returned r) u)
    (quiet : Undisturbed w h) :
    u.values = w.values ∧ ∃ id cls objPointer, r = some (.handle id cls p objPointer) := by
  have made : ∀ {cls objPointer w h}, Exec bridge.meaning
      (askJava (.newObject env cls objPointer p borrowed)) w h (.returned r) u →
      ∃ id cls objPointer, r = some (.handle id cls p objPointer) := by
    intro cls objPointer w h run
    obtain ⟨a, s, rest, acts, tail, -⟩ := exec_prim run
    cases acts
    obtain ⟨-, same, -⟩ := exec_ret tail
    cases same
    exact ⟨_, _, _, rfl⟩
  have off : OffTable (newHandle env thisObj (.object p) borrowed) := by
    refine offTable_bind ⟨rfl, fun _ => trivial⟩ fun isFunction => ?_
    split
    · exact ⟨rfl, fun _ => trivial⟩
    · refine offTable_bind ⟨trivial, fun _ => trivial⟩ fun isArray => ?_
      split <;> exact ⟨rfl, fun _ => trivial⟩
  refine ⟨effect_offTable off w h r u run quiet, ?_⟩
  rcases exec_bind run with ⟨isFunction, s, before, after, -, second, -⟩ | ⟨-, dead⟩
  · split at second
    · exact made second
    · rcases exec_bind second with ⟨isArray, s', before', after', -, third, -⟩ | ⟨-, dead⟩
      · split at third
        · exact made third
        · exact made third
      · cases dead
  · cases dead

theorem effect_keepValue {p : Addr} {w u : World} {h : BridgeHistory}
    (run : Exec bridge.meaning (keepValue (.object p)) w h (.returned ()) u) (quiet : Undisturbed w h) :
    u.values = Function.update w.values p true := by
  obtain ⟨a, s, rest, acts, tail, rfl⟩ := exec_prim run
  cases acts
  replace tail : Exec bridge.meaning (if w.values p then freeValue (.object p)
    else act (.valuesInsert p)) w rest (.returned ()) u := tail
  cases known : w.values p with
  | true =>
    rw [known, if_pos rfl] at tail
    have same : u.values = w.values := effect_offTable (offTable_freeValue _) w rest () u tail quiet
    rw [same, ← known, Function.update_eq_self]
  | false =>
    rw [known, if_neg Bool.false_ne_true] at tail
    obtain ⟨a, s, rest', acts, last, rfl⟩ := exec_prim tail
    cases acts
    obtain ⟨-, -, rfl⟩ := exec_ret last
    rfl

theorem effect_newStringUTF (env : JNIEnv) (text : Option (List UInt8)) :
    Effect (newStringUTF env text) entriesFor := by
  intro w h r u run quiet
  cases text with
  | none =>
    obtain ⟨-, dead, -⟩ := exec_crash run
    cases dead
  | some bytes =>
    obtain ⟨a, s, rest, acts, tail, rfl⟩ := exec_prim run
    cases acts
    obtain ⟨-, same, rfl⟩ := exec_ret tail
    cases same
    rfl

theorem effect_toJavaObject (env : JNIEnv) (thisObj v : JSValue) :
    Effect (toJavaObject env thisObj v true) entriesFor := by
  have unlisted : ∀ (env : JNIEnv) (o : JavaObject), entriesFor (some o) = [] →
      Effect (askJava (.valueOf env o)) entriesFor := by
    intro env o none w h r u run quiet
    obtain ⟨a, s, rest, acts, tail, rfl⟩ := exec_prim run
    cases acts
    obtain ⟨-, same, rfl⟩ := exec_ret tail
    cases same
    exact (congrArg (tableAfter u.values) none).symm
  cases v with
  | string p s =>
    have asks : OffTable (enterText (.toCString (.string p s))) := ⟨trivial, fun _ => trivial⟩
    apply effect_after asks
    intro text
    apply effect_before (effect_newStringUTF env text)
    intro o w h x u run quiet
    rcases exec_bind run with ⟨_, s', freeing, last, frees, done, rfl⟩ | ⟨-, dead⟩
    · obtain ⟨rfl, same, rfl⟩ := exec_ret done
      cases same
      rw [List.append_nil] at quiet
      replace frees : Exec bridge.meaning (freeValue (.string p s)) w freeing (.returned ()) u := frees
      exact ⟨effect_offTable (offTable_freeValue _) w freeing () u frees quiet, rfl⟩
    · cases dead
  | object p =>
    intro w h r u run quiet
    rcases exec_bind run with ⟨o, s, before, after, first, second, rfl⟩ | ⟨-, dead⟩
    · obtain ⟨early, late⟩ := (undisturbed_append first).1 quiet
      obtain ⟨same, id, cls, objPointer, rfl⟩ := effect_newHandle env thisObj p _ first early
      rcases exec_bind second with ⟨_, s', keeping, last, keeps, done, rfl⟩ | ⟨-, dead⟩
      · obtain ⟨rfl, back, rfl⟩ := exec_ret done
        cases back
        rw [List.append_nil] at late
        rw [effect_keepValue keeps late, same]
        rfl
      · cases dead
    · cases dead
  | float64 d =>
    simp only [toJavaObject]
    split
    · exact unlisted env _ rfl
    · exact unlisted env _ rfl
  | bool b => exact unlisted env _ rfl
  | int n => exact unlisted env _ rfl
  | bigInt p n => exact unlisted env _ rfl
  | _ =>
    intro w h r u run quiet
    obtain ⟨-, same, rfl⟩ := exec_ret run
    cases same
    rfl

theorem effect_converting (t : ThreadId) (op : NativeOp) (o : Obtained) :
    Effect (op.converting t o) entriesFor := by
  have forGlobal : Effect ((askValue .getGlobalObject).bind fun global =>
      (toJavaObject (.ofThread t) global o.result true).bind fun jsObj =>
      (freeValue global).bind fun _ => .ret jsObj) entriesFor := by
    have asks : OffTable (askValue .getGlobalObject) := ⟨rfl, fun _ => trivial⟩
    apply effect_after asks
    intro global
    apply effect_before (effect_toJavaObject (.ofThread t) global o.result)
    intro r w h x u run quiet
    rcases exec_bind run with ⟨_, s', freeing, last, frees, done, rfl⟩ | ⟨-, dead⟩
    · obtain ⟨rfl, same, rfl⟩ := exec_ret done
      cases same
      rw [List.append_nil] at quiet
      exact ⟨effect_offTable (offTable_freeValue global) w freeing () u frees quiet, rfl⟩
    · cases dead
  unfold NativeOp.converting
  split
  · exact forGlobal
  · exact forGlobal
  · exact effect_toJavaObject _ _ _

theorem effect_disposing (t : ThreadId) (op : NativeOp) (finished : Bool) (o : Obtained) :
    Effect (op.disposing t finished o) entriesFor := by
  cases finished with
  | true => exact effect_converting t op o
  | false => exact effect_ret (effect_offTable (offTable_freeValue o.result)) fun _ => rfl

theorem offTable_settling (t : ThreadId) (op : NativeOp) (converted : List JSValue) :
    OffTable (op.settling t converted) := by
  apply offTable_bind (offTable_freeValues converted)
  intro _
  split
  · exact offTable_executePendingJobLoop _ _
  · trivial

theorem effect_reported (env : JNIEnv) :
    Effect ((throwPendingJSException env).bind fun _ => .ret none) entriesFor :=
  effect_ret (effect_offTable (offTable_throwPendingJSException env)) fun _ => rfl

theorem effect_handling (t : ThreadId) (op : NativeOp) (o : Obtained) :
    Effect (op.handling t o) entriesFor := by
  have parts : Effect ((op.settling t o.converted).bind fun finished => op.disposing t finished o)
      entriesFor :=
    effect_after (offTable_settling t op o.converted) fun finished => effect_disposing t op finished o
  unfold NativeOp.handling
  split
  · exact parts
  · apply effect_after (offTable_settling t _ o.converted)
    intro finished
    split
    · exact effect_reported _
    · exact effect_disposing t _ finished o
  · split
    · exact effect_reported _
    · exact parts

theorem offTable_askingFor {env : JNIEnv} {argument : Option JavaString} {message : String}
    {p : JavaString → Program (Option Obtained)} (off : ∀ s, OffTable (p s)) :
    OffTable (NativeOp.askingFor env argument message p) := by
  cases argument with
  | none => exact ⟨rfl, fun _ => trivial⟩
  | some s => exact off s

theorem offTable_asking (t : ThreadId) (op : NativeOp) : OffTable (op.asking t) := by
  have evals : ∀ script fileName flags,
      OffTable (NativeOp.askingEval (.ofThread t) script fileName flags) := by
    intro script fileName flags
    apply offTable_askingFor
    intro script
    apply offTable_askingFor
    intro fileName
    exact ⟨rfl, fun _ => ⟨rfl, fun _ => ⟨trivial, fun _ => trivial⟩⟩⟩
  cases op with
  | evaluate script fileName fuel => exact evals script fileName _
  | evaluateModule script fileName fuel => exact evals script fileName _
  | execute bytecode fuel =>
    cases bytecode with
    | none => trivial
    | some bytecode =>
      apply offTable_bind (offTable_enterValue _)
      intro obj
      split
      · exact offTable_bind (offTable_throwPendingJSException _) fun _ => trivial
      · refine offTable_bind ⟨trivial, fun _ => trivial⟩ fun status => ?_
        split
        · trivial
        · exact offTable_bind (offTable_enterValue _) fun _ => trivial
  | getProperty objValue name =>
    apply offTable_askingFor
    intro name
    exact ⟨rfl, fun _ => ⟨trivial, fun _ => trivial⟩⟩
  | get objValue index => exact offTable_bind (offTable_enterValue _) fun _ => trivial
  | call func thisObj args fuel =>
    apply offTable_bind (offTable_callArguments _ args [] [])
    intro converted
    cases converted with
    | none => trivial
    | some converted => exact offTable_bind (offTable_enterValue _) fun _ => trivial
  | parseJSON json =>
    apply offTable_askingFor
    intro json
    exact ⟨rfl, fun _ => ⟨trivial, fun _ => trivial⟩⟩
  | _ => trivial

theorem effect_result {op : NativeOp} (returns : op.returnsResult = true) (t : ThreadId) :
    Effect (op.program t) fun b => entriesFor b.toJava := by
  rw [program_parts returns]
  apply effect_after (offTable_asking t op)
  intro asked
  cases asked with
  | none =>
    intro w h r u run quiet
    obtain ⟨-, same, rfl⟩ := exec_ret run
    cases same
    rfl
  | some o => exact effect_ret (effect_handling t op o) fun _ => rfl

theorem effect_freeValue (t : ThreadId) (p : Nat) :
    Effect ((NativeOp.freeValue p).program t) fun _ => [.freed p] := by
  have frees : Effect (Wrapper.freeValue p) fun _ => [.freed p] := by
    intro w h r u run quiet
    obtain ⟨a, s, rest, acts, tail, rfl⟩ := exec_prim run
    cases acts
    replace tail : Exec bridge.meaning (if w.values p then freeValue (.object p) else .ret ())
      { w with values := Function.update w.values p false } rest (.returned r) u := tail
    have off : OffTable (if w.values p then freeValue (.object p) else .ret ()) := by
      split
      · exact offTable_freeValue _
      · trivial
    exact effect_offTable off _ rest r u tail quiet
  exact effect_ret frees fun _ => rfl

theorem offTable_getGlobalObject (env : JNIEnv) : OffTable (Wrapper.getGlobalObject env) :=
  offTable_bind ⟨rfl, fun _ => trivial⟩ fun value =>
    offTable_bind ⟨rfl, fun _ => trivial⟩ fun _ =>
      offTable_bind (offTable_freeValue value) fun _ => trivial

theorem offTable_setProperty (env : JNIEnv) (thisObj : Nat) (name : JavaString)
    (value : Option JavaObject) : OffTable (Wrapper.setProperty env thisObj name value) := by
  have prepare : ∀ propName propValue, OffTable (Wrapper.prepareProperty propName value propValue) := by
    intro propName propValue
    unfold Wrapper.prepareProperty
    split
    · exact ⟨rfl, fun _ => trivial⟩
    · exact ⟨rfl, fun _ => trivial⟩
    · exact ⟨trivial, fun _ => trivial⟩
    · trivial
  refine offTable_bind ⟨rfl, fun _ => trivial⟩ fun propName => ?_
  apply offTable_bind (offTable_toJSValue env value)
  intro propValue
  exact offTable_bind (prepare propName propValue) fun _ => ⟨trivial, fun _ => trivial⟩

theorem offTable_nonNull {env : JNIEnv} {argument : Option JavaString} {message : String}
    {p : JavaString → Program Answer} (off : ∀ s, OffTable (p s)) :
    OffTable (nonNull env argument message p) := by
  cases argument with
  | none => exact ⟨rfl, fun _ => trivial⟩
  | some s => exact off s

theorem offTable_program {op : NativeOp} (made : op.isConstructor = false)
    (returns : op.returnsResult = false) (other : ∀ p, op ≠ .freeValue p) (t : ThreadId) :
    OffTable (op.program t) := by
  have reported : ∀ {R : Type} (r : R), OffTable ((throwPendingJSException (.ofThread t)).bind
      fun _ => .ret r) := fun r => offTable_bind (offTable_throwPendingJSException _) fun _ => trivial
  cases op with
  | createContext => cases made
  | runGC => exact ⟨trivial, fun _ => trivial⟩
  | compile source fileName isModule =>
    apply offTable_nonNull
    intro source
    apply offTable_nonNull
    intro fileName
    refine offTable_bind ⟨rfl, fun _ => ⟨rfl, fun _ => ?_⟩⟩ fun _ => trivial
    apply offTable_bind (offTable_enterValue _)
    intro compiled
    split
    · exact reported none
    · refine offTable_bind ⟨trivial, fun _ => trivial⟩ fun buffer => ?_
      apply offTable_bind
      · cases (buffer.filter (!·.isEmpty)).isNone with
        | true => exact offTable_throwPendingJSException _
        | false => trivial
      · exact fun _ => offTable_bind (offTable_freeValue compiled) fun _ => trivial
  | getGlobalObject => exact offTable_bind (offTable_getGlobalObject _) fun _ => trivial
  | setProperty objValue name value =>
    apply offTable_nonNull
    exact fun name => offTable_bind (offTable_setProperty _ objValue name value) fun _ => trivial
  | length objValue =>
    refine offTable_bind ?_ fun _ => trivial
    apply offTable_bind (offTable_enterValue _)
    intro length
    split
    · exact reported (-1)
    · exact offTable_bind (offTable_freeValue length) fun _ => trivial
  | set objValue value index =>
    refine offTable_bind ?_ fun _ => trivial
    apply offTable_bind (offTable_toJSValue _ value)
    intro child
    apply offTable_bind
    · cases !child.isString with
      | true => exact ⟨rfl, fun _ => trivial⟩
      | false => trivial
    · exact fun _ => ⟨trivial, fun _ => trivial⟩
  | stringify objValue =>
    refine offTable_bind ?_ fun _ => trivial
    apply offTable_bind (offTable_enterValue _)
    intro obj
    split
    · exact reported none
    · refine offTable_bind ⟨trivial, fun _ => trivial⟩ fun text => ?_
      apply offTable_bind (offTable_freeValue obj)
      intro _
      cases text with
      | none => trivial
      | some bytes => exact ⟨rfl, fun _ => trivial⟩
  | freeValue p => exact absurd rfl (other p)
  | _ => cases returns

theorem effect_program {op : NativeOp} (made : op.isConstructor = false) (t : ThreadId) :
    Effect (op.program t) op.entries := by
  cases returns : op.returnsResult with
  | true =>
    have entries : op.entries = fun b => entriesFor b.toJava := by
      funext b
      unfold NativeOp.entries
      split
      · cases returns
      · rw [if_pos returns]
    rw [entries]
    exact effect_result returns t
  | false =>
    by_cases frees : ∃ p, op = .freeValue p
    · obtain ⟨p, rfl⟩ := frees
      exact effect_freeValue t p
    · have entries : op.entries = fun _ => [] := by
        funext b
        unfold NativeOp.entries
        split
        · exact absurd ⟨_, rfl⟩ frees
        · rw [returns, if_neg Bool.false_ne_true]
      rw [entries]
      exact effect_offTable (offTable_program made returns (fun p same => frees ⟨p, same⟩) t)

end Results
end QuickJSBridge
