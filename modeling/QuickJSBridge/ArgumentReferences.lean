import QuickJSBridge.ErrorHandlers

/- References of the values toJSValue makes. Some Java objects become values with a reference
   of their own, handles only lend theirs, and the four callers decide by the Java type
   what to duplicate and what to free. -/
namespace QuickJSBridge
open HostProgram ReentrantMachine

section Conversions

def convertible : Option JavaObject → Bool
  | some (.string s) => (newStringLen (ModifiedUtf8.encode s)).isSome
  | some (.other _) => false
  | _ => true

def allocates : Option JavaObject → Bool
  | some (.string _) | some (.callFunction _) => true
  | some (.long n) => maxSafeInteger < n.toInt ∨ n.toInt < -maxSafeInteger
  | _ => false

def lends : Option JavaObject → Bool
  | some (.handle _ _ _ _) => true
  | _ => false

def isJavaString : Option JavaObject → Bool
  | some (.string _) => true
  | _ => false

def isCall : BridgeItem → Bool
  | .call (.engine (.call _ _ _)) _ _ => true
  | _ => false

variable {env : JNIEnv} {o : Option JavaObject} {w u : World} {h : BridgeHistory}

structure Converts (o : Option JavaObject) (w : World) (h : BridgeHistory) (v : JSValue) (u : World) :
    Prop where
  balance : ∀ p, references h p = if lends o then 0 else countAt p (some v)
  failed : v.isException = !convertible o
  counted : lends o = false → convertible o = true → v.addr?.isSome = allocates o
  string : v.isString = (isJavaString o && convertible o)
  object : v.isObject = (lends o || Wrapper.isCallFunction o)
  pending : convertible o = true → u.javaException = w.javaException
  noCall : ∀ item ∈ h, isCall item = false

theorem reply_newString {bytes : List UInt8} {a : Answer}
    (reply : bridge.Reply (.engine (.newString bytes)) w a u) :
    (∃ p string, newStringLen bytes = some string ∧ a = .value (.string p string)) ∨
    (newStringLen bytes = none ∧ a = .value .exception) := by
  obtain ⟨s, s', labels, -, -, back⟩ := reply
  exact deliver_newString back

theorem reply_newBigInt64 {n : Int64} {a : Answer}
    (reply : bridge.Reply (.engine (.newBigInt64 n)) w a u) :
    ∃ p, a = .value (.bigInt p n.toInt) := by
  obtain ⟨s, s', labels, -, -, back⟩ := reply
  replace back : deliverEngine (.newBigInt64 n) a s' = some u := back
  cases a with
  | value v =>
    cases v with
    | bigInt p m =>
      replace back : (if m = n.toInt then s'.give (.bigInt p m) else none) = some u := back
      obtain ⟨rfl, -⟩ := Option.ite_none_right_eq_some.1 back
      exact ⟨p, rfl⟩
    | _ => cases back
  | _ => cases back

theorem reply_newCallbackFunction {a : Answer}
    (reply : bridge.Reply (.engine .newCallbackFunction) w a u) : ∃ p, a = .value (.object p) := by
  obtain ⟨s, s', labels, -, -, back⟩ := reply
  replace back : deliverEngine .newCallbackFunction a s' = some u := back
  cases a with
  | value v =>
    cases v with
    | object p => exact ⟨p, rfl⟩
    | _ => cases back
  | _ => cases back

theorem newInt64_uncounted (n : Int64) : (newInt64 n).addr? = none ∧
    (newInt64 n).isException = false ∧ (newInt64 n).isString = false ∧ (newInt64 n).isObject = false := by
  unfold newInt64
  split <;> exact ⟨rfl, rfl, rfl, rfl⟩

theorem newFloat64_uncounted (d : Float64) : (newFloat64 d).addr? = none ∧
    (newFloat64 d).isException = false ∧ (newFloat64 d).isString = false ∧
    (newFloat64 d).isObject = false := by
  unfold newFloat64
  split <;> exact ⟨rfl, rfl, rfl, rfl⟩

theorem converts_unboxed {v : JSValue} {c : Prim} {a : Answer} (same : u.javaException = w.javaException)
    (none : Item.given (.prim c a u) = Option.none) (other : lends o = false)
    (simple : v.addr? = Option.none ∧ v.isException = false ∧ v.isString = false ∧ v.isObject = false)
    (can : convertible o = true) (new : allocates o = false) (noString : isJavaString o = false)
    (noCall : Wrapper.isCallFunction o = false) :
    Converts o w [.prim c a u] v u where
  balance p := by
    rw [references_cons, other]
    simp [Item.gained, none, Item.taken, countAt_uncounted simple.1]
  failed := by rw [simple.2.1, can]; rfl
  counted _ _ := by rw [simple.1, new]; rfl
  string := by rw [simple.2.2.1, noString]; rfl
  object := by rw [simple.2.2.2, other, noCall]; rfl
  pending _ := same
  noCall item member := by
    rw [List.mem_singleton.1 member]
    rfl

theorem exec_toJSValue {out : Outcome JSValue}
    (run : Exec bridge.meaning (toJSValue env o) w h out u) :
    ∃ v, out = .returned v ∧ Converts o w h v u := by
  cases o with
  | none =>
    obtain ⟨rfl, rfl, rfl⟩ := exec_ret run
    exact ⟨.undefined, rfl, fun p => rfl, rfl, fun _ _ => rfl, rfl, rfl, fun _ => rfl, by simp⟩
  | some o =>
    cases o with
    | double d =>
      obtain ⟨a, s, rest, acts, tail, rfl⟩ := exec_prim run
      cases acts
      obtain ⟨rfl, rfl, rfl⟩ := exec_ret tail
      exact ⟨_, rfl, converts_unboxed rfl rfl rfl (newFloat64_uncounted d) rfl rfl rfl rfl⟩
    | integer n =>
      obtain ⟨a, s, rest, acts, tail, rfl⟩ := exec_prim run
      cases acts
      obtain ⟨rfl, rfl, rfl⟩ := exec_ret tail
      exact ⟨_, rfl, converts_unboxed rfl rfl rfl ⟨rfl, rfl, rfl, rfl⟩ rfl rfl rfl rfl⟩
    | boolean b =>
      obtain ⟨a, s, rest, acts, tail, rfl⟩ := exec_prim run
      cases acts
      obtain ⟨rfl, rfl, rfl⟩ := exec_ret tail
      exact ⟨_, rfl, converts_unboxed rfl rfl rfl ⟨rfl, rfl, rfl, rfl⟩ rfl rfl rfl rfl⟩
    | handle id cls pointer objPointer =>
      obtain ⟨a, s, rest, acts, tail, rfl⟩ := exec_prim run
      cases acts
      obtain ⟨rfl, rfl, rfl⟩ := exec_ret tail
      refine ⟨.object pointer, rfl, fun p => rfl, rfl, nofun, rfl, rfl, fun _ => rfl, ?_⟩
      intro item member
      rw [List.mem_singleton.1 member]
      rfl
    | other className =>
      obtain ⟨a, s, rest, acts, tail, rfl⟩ := exec_prim run
      cases acts
      obtain ⟨rfl, rfl, rfl⟩ := exec_ret tail
      refine ⟨.exception, rfl, fun p => rfl, rfl, nofun, rfl, rfl, nofun, ?_⟩
      intro item member
      rw [List.mem_singleton.1 member]
      rfl
    | long n =>
      obtain ⟨a, s, rest, acts, tail, rfl⟩ := exec_prim run
      cases acts
      rw [Prog.bind_ret] at tail
      split at tail
      next large =>
        obtain ⟨a, s, rest', answers, last, rfl⟩ := exec_enter tail
        obtain ⟨p, rfl⟩ := reply_newBigInt64 answers
        obtain ⟨rfl, rfl, rfl⟩ := exec_ret last
        refine ⟨.bigInt p n.toInt, rfl, fun q => ?_, rfl, ?_, rfl, rfl, ?_, ?_⟩
        · simp [lends, Item.gained, Item.given, Item.taken, EngineCall.consumed]
        · intro _ _
          simp only [allocates, large, decide_true]
          rfl
        · exact fun _ => congrArg Agenda.javaException (reply_quiet rfl answers)
        · intro item member
          rcases List.mem_cons.1 member with rfl | member
          · rfl
          · rw [List.mem_singleton.1 member]
            rfl
      next small =>
        obtain ⟨rfl, rfl, rfl⟩ := exec_ret tail
        refine ⟨_, rfl, converts_unboxed rfl rfl rfl (newInt64_uncounted n) rfl ?_ rfl rfl⟩
        simpa [allocates] using small
    | string s =>
      obtain ⟨a, x, rest, acts, tail, rfl⟩ := exec_prim run
      cases acts
      obtain ⟨a, x, rest', answers, last, rfl⟩ := exec_enter tail
      have same := congrArg Agenda.javaException (reply_quiet rfl answers)
      have noCall : ∀ b y, ∀ item ∈ ([.prim (.getStringUTFChars env s) (.text (some (ModifiedUtf8.encode s))) w,
          .call (.engine (.newString (ModifiedUtf8.encode s))) b y] : BridgeHistory),
          isCall item = false := by
        intro b y item member
        rcases List.mem_cons.1 member with rfl | member
        · rfl
        · rw [List.mem_singleton.1 member]
          rfl
      rcases reply_newString answers with ⟨p, string, made, rfl⟩ | ⟨failed, rfl⟩
      · obtain ⟨rfl, rfl, rfl⟩ := exec_ret last
        replace made : newStringLen (ModifiedUtf8.encode s) = some string := made
        refine ⟨.string p string, rfl, fun q => ?_, ?_, fun _ _ => rfl, ?_, rfl,
          fun _ => same, noCall _ _⟩
        · simp [lends, Item.gained, Item.given, Item.taken, EngineCall.consumed]
        · rw [convertible, made]
          rfl
        · rw [convertible, made]
          rfl
      · obtain ⟨rfl, rfl, rfl⟩ := exec_ret last
        replace failed : newStringLen (ModifiedUtf8.encode s) = none := failed
        refine ⟨.exception, rfl, fun q => rfl, ?_, ?_, ?_, rfl, fun _ => same, noCall _ _⟩
        · rw [convertible, failed]
          rfl
        · intro _ can
          rw [convertible, failed] at can
          cases can
        · rw [convertible, failed]
          rfl
    | callFunction f =>
      obtain ⟨a, x, rest, answers, tail, rfl⟩ := exec_enter run
      obtain ⟨p, rfl⟩ := reply_newCallbackFunction answers
      have same := congrArg Agenda.javaException (reply_quiet rfl answers)
      obtain ⟨a, y, rest', acts, tail', rfl⟩ := exec_prim tail
      cases acts
      obtain ⟨b, z, rest'', stores, last, rfl⟩ := exec_prim tail'
      replace stores : exec (.setFuncCallback (.object p) f.hashCode f) x = some (b, z) := stores
      have kept := congrArg Agenda.javaException (agenda_exec stores)
      obtain ⟨rfl, rfl, rfl⟩ := exec_ret last
      refine ⟨.object p, rfl, fun q => ?_, rfl, fun _ _ => rfl, rfl, rfl, fun _ => kept.trans same, ?_⟩
      · simp [lends, Item.gained, Item.given, Item.taken, EngineCall.consumed, Answer.toValue]
      · intro item member
        rcases List.mem_cons.1 member with rfl | member
        · rfl
        · rcases List.mem_cons.1 member with rfl | member
          · rfl
          · rw [List.mem_singleton.1 member]
            rfl

end Conversions

section Totals

def totalAt (p : Addr) (values : List JSValue) : Int := (values.map fun v => countAt p (some v)).sum

@[simp] theorem totalAt_nil (p : Addr) : totalAt p [] = 0 := rfl

@[simp] theorem totalAt_cons (p : Addr) (v : JSValue) (values : List JSValue) :
    totalAt p (v :: values) = countAt p (some v) + totalAt p values :=
  List.sum_cons

theorem totalAt_append (p : Addr) (values more : List JSValue) :
    totalAt p (values ++ more) = totalAt p values + totalAt p more := by
  unfold totalAt
  rw [List.map_append, List.sum_append]

theorem countAt_nonneg (p : Addr) (v : Option JSValue) : 0 ≤ countAt p v := by
  unfold countAt
  split <;> omega

theorem totalAt_nonneg (p : Addr) (values : List JSValue) : 0 ≤ totalAt p values := by
  induction values with
  | nil => exact Int.le_refl 0
  | cons v values ih =>
    have here := countAt_nonneg p (some v)
    rw [totalAt_cons]
    omega

theorem totalAt_zero_iff (values : List JSValue) :
    (∀ p, totalAt p values = 0) ↔ ∀ v ∈ values, v.addr? = none := by
  induction values with
  | nil => simp
  | cons v values ih =>
    rw [List.forall_mem_cons, ← ih]
    constructor
    · intro zero
      have split : ∀ p, countAt p (some v) = 0 ∧ totalAt p values = 0 := by
        intro p
        have sum := zero p
        have here := countAt_nonneg p (some v)
        have later := totalAt_nonneg p values
        rw [totalAt_cons] at sum
        omega
      exact ⟨uncounted_of_countAt fun p => (split p).1, fun p => (split p).2⟩
    · rintro ⟨here, later⟩ p
      rw [totalAt_cons, countAt_uncounted here, later p]
      rfl

end Totals

section Arguments
variable {env : JNIEnv} {w u : World} {h : BridgeHistory}

def convertedPart (args : List (Option JavaObject)) : List (Option JavaObject) :=
  args.takeWhile convertible

structure ConvertsAll (args : List (Option JavaObject)) (h : BridgeHistory) (freed : List JSValue) :
    Prop where
  balance : ∀ p, references h p = totalAt p freed
  counted : (∀ v ∈ freed, v.addr? = none) ↔ ∀ o ∈ convertedPart args, allocates o = false
  noCall : ∀ item ∈ h, isCall item = false

theorem exec_callArguments {args : List (Option JavaObject)} {arguments freeArguments : List JSValue}
    {out : Outcome (Option (List JSValue × List JSValue))} (clear : w.javaException = none)
    (run : Exec bridge.meaning (Wrapper.callArguments env args arguments freeArguments) w h out u) :
    ∃ new freed, ConvertsAll args h freed ∧
      out = .returned (if args.all convertible then
        some (arguments ++ new, freeArguments ++ freed) else none) := by
  induction args generalizing arguments freeArguments w h with
  | nil =>
    obtain ⟨rfl, rfl, rfl⟩ := exec_ret run
    exact ⟨[], [], ⟨fun _ => rfl, by simp [convertedPart], by simp⟩, by simp⟩
  | cons arg args ih =>
    obtain ⟨a, s, rest, acts, tail, rfl⟩ := exec_prim run
    cases acts
    rw [clear] at tail
    rw [Prog.bind_ret] at tail
    replace tail : Exec bridge.meaning ((toJSValue env arg).bind fun jsArg =>
      if jsArg.isException then .ret none
      else Wrapper.callArguments env args (arguments ++ [jsArg])
        (if Wrapper.isFreedArgument arg then freeArguments ++ [jsArg] else freeArguments))
        w rest out u := tail
    rcases exec_bind tail with ⟨v, x, before, after, first, last, rfl⟩ | ⟨first, -⟩
    · obtain ⟨v', same, converts⟩ := exec_toJSValue first
      cases same
      have check : ∀ b later p, references (.prim (.exceptionCheck env) (.bool b) w :: later) p =
          references later p := by
        intro b later p
        simp [Item.gained, Item.given, Item.taken]
      cases can : convertible arg with
      | false =>
        have failed : v.isException = true := by rw [converts.failed, can]; rfl
        rw [failed] at last
        obtain ⟨rfl, rfl, rfl⟩ := exec_ret last
        have none : v = .exception := of_decide_eq_true failed
        refine ⟨[], [], ⟨fun p => ?_, by simp [convertedPart, can], ?_⟩, by simp [can]⟩
        · rw [check, List.append_nil, converts.balance, none]
          split <;> rfl
        · intro item member
          rcases List.mem_cons.1 member with rfl | member
          · rfl
          · rw [List.append_nil] at member
            exact converts.noCall item member
      | true =>
        have fine : v.isException = false := by rw [converts.failed, can]; rfl
        rw [fine] at last
        obtain ⟨new, freed, all, rfl⟩ := ih ((converts.pending can).trans clear) last
        have freedOrLent : Wrapper.isFreedArgument arg = !lends arg := by
          cases arg with
          | none => rfl
          | some o =>
            cases o with
            | other className => cases can
            | _ => rfl
        refine ⟨v :: new, (if lends arg then [] else [v]) ++ freed, ⟨fun p => ?_, ?_, ?_⟩, ?_⟩
        · rw [check, references_append, converts.balance, all.balance, totalAt_append]
          cases lends arg <;> simp
        · have here : (∀ x ∈ (if lends arg then [] else [v]), x.addr? = none) ↔
              allocates arg = false := by
            cases lent : lends arg with
            | true =>
              cases arg with
              | none => cases lent
              | some o =>
                cases o with
                | handle id cls pointer objPointer => simp [allocates]
                | _ => cases lent
            | false =>
              have counted := converts.counted lent can
              rw [← counted]
              simp
          rw [List.forall_mem_append, here, all.counted]
          simp [convertedPart, can]
        · intro item member
          rcases List.mem_cons.1 member with rfl | member
          · rfl
          · rcases List.mem_append.1 member with early | late
            · exact converts.noCall item early
            · exact all.noCall item late
        · rw [freedOrLent, List.all_cons, can, Bool.true_and]
          cases lends arg <;> simp
    · obtain ⟨v, dead, -⟩ := exec_toJSValue first
      cases dead

end Arguments

section Callbacks

theorem reply_isArray {v : JSValue} {w u : World} {a : Answer}
    (reply : bridge.Reply (.engine (.isArray v)) w a u) : ∃ n, a = .int n := by
  obtain ⟨s, s', labels, -, -, back⟩ := reply
  replace back : deliverEngine (.isArray v) a s' = some u := back
  cases a with
  | int n => exact ⟨n, rfl⟩
  | _ => cases v <;> cases back

theorem neutral_toJavaObject (env : JNIEnv) (thisObj value : JSValue) :
    Neutral (toJavaObject env thisObj value false) := by
  have make : ∀ {c : Prim}, (∀ a u q, Item.gained (.prim c a u) q = 0) → Neutral (askJava c) :=
    fun alone => neutral_prim alone fun _ => neutral_ret _
  cases value with
  | string p s =>
    refine neutral_bind (neutral_enter ?_ fun _ => neutral_ret _) fun text => ?_
    · intro w a u answers q
      obtain ⟨bytes, rfl⟩ := reply_toCString answers
      rfl
    · refine neutral_bind ?_ fun result => neutral_bind (neutral_ret ()) fun _ => neutral_ret _
      cases text with
      | none => exact neutral_crash
      | some bytes => exact make fun _ _ _ => rfl
  | object p =>
    refine neutral_bind ?_ fun result => neutral_bind (neutral_ret ()) fun _ => neutral_ret _
    refine neutral_bind (neutral_prim (fun _ _ _ => rfl) fun _ => neutral_ret _) fun isFunction => ?_
    split
    · exact make fun _ _ _ => rfl
    · refine neutral_bind (neutral_enter ?_ fun _ => neutral_ret _) fun isArray => ?_
      · intro w a u answers q
        obtain ⟨n, rfl⟩ := reply_isArray answers
        rfl
      · split <;> exact make fun _ _ _ => rfl
  | float64 d =>
    simp only [toJavaObject]
    split <;> exact make fun _ _ _ => rfl
  | bool b => exact make fun _ _ _ => rfl
  | int n => exact make fun _ _ _ => rfl
  | bigInt p n => exact make fun _ _ _ => rfl
  | _ => exact neutral_ret _

theorem neutral_callbackArguments (thisVal : JSValue) (argv : List JSValue) :
    Neutral (Wrapper.callbackArguments thisVal argv) := by
  induction argv with
  | nil => exact neutral_ret []
  | cons v argv ih =>
    refine neutral_bind (neutral_toJavaObject .saved thisVal v) fun arg => ?_
    exact neutral_bind ih fun args => neutral_ret _

theorem neutral_callFunctionBack (callFunctionId : Int32) (args : List (Option JavaObject)) :
    Neutral (Wrapper.callFunctionBack callFunctionId args) := by
  have throws : Neutral ((act (.throw .saved (.nullPointer ""))).bind fun _ =>
      (.ret none : Program (Option JavaObject))) :=
    neutral_bind (neutral_prim (fun _ _ _ => rfl) fun _ => neutral_ret ()) fun _ => neutral_ret _
  refine neutral_bind (neutral_prim (fun _ _ _ => rfl) fun _ => neutral_ret _) fun found => ?_
  cases found with
  | none => exact throws
  | some o =>
    cases o with
    | callFunction f =>
      refine neutral_bind (neutral_enter (fun _ _ _ _ _ => rfl) fun _ => neutral_ret _) fun ret => ?_
      cases ret with
      | none => exact neutral_ret _
      | some r =>
        cases r with
        | callFunction g =>
          exact neutral_bind (neutral_prim (fun _ _ _ => rfl) fun _ => neutral_ret ()) fun _ => neutral_ret _
        | _ => exact neutral_ret _
    | _ => exact throws

def returnedValue : Outcome JSValue → Option JSValue
  | .returned v => some v
  | .crashed => none

theorem references_converted (result : Option JavaObject) :
    Ends bridge.meaning ((toJSValue .saved result).bind fun jsValue =>
      ((act (.dupValue jsValue)).when (jsValue.isObject && !Wrapper.isCallFunction result)).bind
        fun _ => .ret jsValue) fun h out => ∀ p, references h p = countAt p (returnedValue out) := by
  intro w h out u run p
  rcases exec_bind run with ⟨v, x, before, after, first, last, rfl⟩ | ⟨first, -⟩
  · obtain ⟨v', same, converts⟩ := exec_toJSValue first
    cases same
    rw [references_append, converts.balance]
    rw [converts.object] at last
    cases lent : lends result with
    | true =>
      have noCallback : Wrapper.isCallFunction result = false := by
        cases result with
        | none => cases lent
        | some o => cases o <;> first | rfl | cases lent
      rw [lent, noCallback] at last
      obtain ⟨a, y, rest, acts, tail, rfl⟩ := exec_prim last
      obtain ⟨rfl, rfl, rfl⟩ := exec_ret tail
      have same : a = .value v := by
        obtain ⟨z, -, same⟩ := Option.map_eq_some_iff.1 acts
        cases same
        rfl
      subst same
      simp [Item.gained, Item.given, Item.taken, Answer.toValue, returnedValue]
    | false =>
      have kept : Exec bridge.meaning (.ret v) x after out u := by
        rw [lent] at last
        cases callback : Wrapper.isCallFunction result <;> (rw [callback] at last; exact last)
      obtain ⟨rfl, rfl, rfl⟩ := exec_ret kept
      simp [returnedValue]
  · obtain ⟨v, dead, -⟩ := exec_toJSValue first
    cases dead

theorem references_jsFuncCall (callbackId : Int32) (thisVal : JSValue) (argv : List JSValue) :
    Ends bridge.meaning (Wrapper.jsFuncCall callbackId thisVal argv) fun h out =>
      ∀ p, references h p = countAt p (returnedValue out) := by
  refine ends_bind (neutral_callbackArguments thisVal argv) (fun h balance => balance) ?_
  intro args h balance
  refine ends_bind (neutral_callFunctionBack callbackId args) ?_ ?_
  · intro later balance' p
    rw [references_append, balance, balance']
    rfl
  · intro result later balance' s last out t run p
    rw [references_append, references_append, balance, balance',
      references_converted result s last out t run]
    simp

end Callbacks

section Stores
variable {env : JNIEnv} {w u : World} {h : BridgeHistory} {value : Option JavaObject}

def leaksInArray : Option JavaObject → Bool
  | some (.callFunction _) => true
  | some (.long n) => maxSafeInteger < n.toInt ∨ n.toInt < -maxSafeInteger
  | _ => false

theorem leaksInArray_eq (value : Option JavaObject) :
    leaksInArray value = (allocates value && !isJavaString value) := by
  cases value with
  | none => rfl
  | some o => cases o <;> simp [leaksInArray, allocates, isJavaString]

theorem lends_noString (lent : lends value = true) : isJavaString value = false := by
  cases value with
  | none => rfl
  | some o => cases o <;> first | rfl | cases lent

theorem lends_noAllocation (lent : lends value = true) : allocates value = false := by
  cases value with
  | none => rfl
  | some o => cases o <;> first | rfl | cases lent

theorem exec_dupValue {v : JSValue} {out : Outcome Unit}
    (run : Exec bridge.meaning (act (.dupValue v)) w h out u) :
    out = .returned () ∧ ∀ p, references h p = countAt p (some v) := by
  obtain ⟨a, s, rest, acts, tail, rfl⟩ := exec_prim run
  obtain ⟨rfl, rfl, rfl⟩ := exec_ret tail
  have same : a = .value v := by
    obtain ⟨z, -, same⟩ := Option.map_eq_some_iff.1 acts
    cases same
    rfl
  subst same
  refine ⟨rfl, fun p => ?_⟩
  simp [Item.gained, Item.given, Item.taken, Answer.toValue]

theorem exec_store {e : EngineCall} {v : JSValue} {out : Outcome Unit}
    (stores : e.consumed = some v)
    (status : ∀ s a s', bridge.Reply (.engine e) s a s' → ∃ n, a = .int n)
    (run : Exec bridge.meaning ((enterInt e).bind fun _ => .ret ()) w h out u) :
    out = .returned () ∧ ∀ p, references h p = -countAt p (some v) := by
  obtain ⟨a, s, rest, answers, tail, rfl⟩ := exec_enter run
  obtain ⟨rfl, rfl, rfl⟩ := exec_ret tail
  obtain ⟨n, rfl⟩ := status _ _ _ answers
  refine ⟨rfl, fun p => ?_⟩
  simp [Item.gained, Item.given, Item.taken, stores]

theorem reply_setPropertyUint32 {obj v : JSValue} {index : UInt32} {a : Answer}
    (reply : bridge.Reply (.engine (.setPropertyUint32 obj index v)) w a u) : ∃ n, a = .int n := by
  obtain ⟨s, s', labels, -, -, back⟩ := reply
  replace back : deliverEngine (.setPropertyUint32 obj index v) a s' = some u := back
  cases a with
  | int n => exact ⟨n, rfl⟩
  | _ => cases back

theorem reply_setPropertyStr {obj v : JSValue} {name : List UInt8} {a : Answer}
    (reply : bridge.Reply (.engine (.setPropertyStr obj name v)) w a u) : ∃ n, a = .int n := by
  obtain ⟨s, s', labels, -, -, back⟩ := reply
  replace back : deliverEngine (.setPropertyStr obj name v) a s' = some u := back
  cases a with
  | int n => exact ⟨n, rfl⟩
  | _ => cases back

theorem reply_defineName {v : JSValue} {name : List UInt8} {a : Answer}
    (reply : bridge.Reply (.engine (.defineName v name)) w a u) : ∃ n, a = .int n := by
  obtain ⟨s, s', labels, -, -, back⟩ := reply
  replace back : deliverEngine (.defineName v name) a s' = some u := back
  cases a with
  | int n => exact ⟨n, rfl⟩
  | _ => cases back

theorem references_set {thisObj : Nat} {index : Int32} {out : Outcome Unit}
    (run : Exec bridge.meaning (Wrapper.set env thisObj value index) w h out u) :
    (∀ p, references h p = 0) ↔ leaksInArray value = false := by
  rcases exec_bind run with ⟨v, x, before, after, first, last, rfl⟩ | ⟨first, -⟩
  · obtain ⟨v', same, converts⟩ := exec_toJSValue first
    cases same
    have stored : ∀ p, references after p =
        (if v.isString then 0 else countAt p (some v)) - countAt p (some v) := by
      intro p
      rcases exec_bind last with ⟨⟨⟩, y, dups, store, dup, set, rfl⟩ | ⟨dup, -⟩
      · have storing := (exec_store rfl (fun _ _ _ => reply_setPropertyUint32) set).2 p
        rw [references_append, storing]
        cases string : v.isString with
        | true =>
          rw [string] at dup
          obtain ⟨rfl, -, -⟩ := exec_ret dup
          simp
        | false =>
          rw [string] at dup
          have duplicates := (exec_dupValue dup).2 p
          rw [duplicates]
          simp
      · cases string : v.isString with
        | true =>
          rw [string] at dup
          obtain ⟨-, dead, -⟩ := exec_ret dup
          cases dead
        | false =>
          rw [string] at dup
          cases (exec_dupValue dup).1
    have net : ∀ p, references (before ++ after) p =
        if lends value || v.isString then 0 else countAt p (some v) := by
      intro p
      rw [references_append, converts.balance, stored]
      cases lent : lends value with
      | true =>
        have noString : v.isString = false := by rw [converts.string, lends_noString lent]; rfl
        rw [noString]
        simp
      | false => cases v.isString <;> simp
    simp only [net, leaksInArray_eq]
    cases lent : lends value with
    | true => simp [lends_noAllocation lent]
    | false =>
      cases can : convertible value with
      | false =>
        have failed : v = .exception := by
          apply of_decide_eq_true
          change v.isException = true
          rw [converts.failed, can]
          rfl
        have new : (allocates value && !isJavaString value) = false := by
          cases value with
          | none => rfl
          | some o => cases o <;> first | rfl | cases can
        rw [new, failed]
        simp [countAt, JSValue.addr?]
      | true =>
        rw [converts.string, can, ← converts.counted lent can]
        cases isJavaString value with
        | true => simp
        | false =>
          simp only [Bool.false_or, Bool.false_eq_true, if_false, Bool.not_false,
            Bool.and_true, Option.isSome_eq_false_iff, Option.isNone_iff_eq_none]
          exact ⟨uncounted_of_countAt, fun uncounted => countAt_uncounted uncounted⟩
  · obtain ⟨v, dead, -⟩ := exec_toJSValue first
    cases dead

theorem exec_prepareProperty {propName : List UInt8} {v : JSValue} {out : Outcome Unit}
    (run : Exec bridge.meaning (Wrapper.prepareProperty propName value v) w h out u) :
    out = .returned () ∧ ∀ p, references h p =
      if value.isNone || lends value then countAt p (some v) else 0 := by
  have plain : ∀ o : Option JavaObject, o = value → o.isNone = false → lends o = false →
      Exec bridge.meaning (.ret ()) w h out u → out = .returned () ∧ ∀ p, references h p =
        if value.isNone || lends value then countAt p (some v) else 0 := by
    rintro o rfl present other done
    obtain ⟨rfl, rfl, rfl⟩ := exec_ret done
    exact ⟨rfl, fun p => by simp [present, other]⟩
  cases value with
  | none =>
    obtain ⟨rfl, balance⟩ := exec_dupValue run
    exact ⟨rfl, fun p => by simpa using balance p⟩
  | some o =>
    cases o with
    | handle id cls pointer objPointer =>
      obtain ⟨rfl, balance⟩ := exec_dupValue run
      exact ⟨rfl, fun p => by simpa [lends] using balance p⟩
    | callFunction f =>
      obtain ⟨a, s, rest, answers, tail, rfl⟩ := exec_enter run
      obtain ⟨n, rfl⟩ := reply_defineName answers
      obtain ⟨rfl, rfl, rfl⟩ := exec_ret tail
      exact ⟨rfl, fun p => rfl⟩
    | _ => exact plain _ rfl rfl rfl run

theorem references_setProperty {thisObj : Nat} {name : JavaString} {out : Outcome Unit}
    (run : Exec bridge.meaning (Wrapper.setProperty env thisObj name value) w h out u) (p : Addr) :
    references h p = 0 := by
  obtain ⟨a, s, rest, acts, tail, rfl⟩ := exec_prim run
  rw [Prog.bind_ret] at tail
  have readName : references (.prim (.getStringUTFChars env name) a s :: rest) p =
      references rest p := by
    simp [Item.gained, Item.given, Item.taken]
  rw [readName]
  rcases exec_bind tail with ⟨v, x, before, after, first, last, rfl⟩ | ⟨first, -⟩
  · obtain ⟨v', same, converts⟩ := exec_toJSValue first
    cases same
    rcases exec_bind last with ⟨⟨⟩, y, prepares, store, prepare, set, rfl⟩ | ⟨prepare, -⟩
    · have storing := (exec_store rfl (fun _ _ _ => reply_setPropertyStr) set).2 p
      rw [references_append, references_append, converts.balance, storing,
        (exec_prepareProperty prepare).2 p]
      cases value with
      | none =>
        have uncounted : v.addr? = none := by
          rw [← Option.isNone_iff_eq_none, ← Option.isSome_eq_false_iff, converts.counted rfl rfl]
          rfl
        simp [countAt_uncounted uncounted]
      | some o => cases lends (some o) <;> simp
    · cases (exec_prepareProperty prepare).1
  · obtain ⟨v, dead, -⟩ := exec_toJSValue first
    cases dead

end Stores

section Calls
variable {env : JNIEnv} {w u : World} {h : BridgeHistory}

def isFree : BridgeItem → Bool
  | .call (.engine (.freeValue _)) _ _ => true
  | _ => false

/-- The part of a call that has to do with its arguments: they are converted, the function is
    called, and right after it they are freed. -/
def argumentPart (h : BridgeHistory) : BridgeHistory :=
  h.takeWhile (fun item => !isCall item) ++
    match h.dropWhile fun item => !isCall item with
    | [] => []
    | call :: rest => call :: rest.takeWhile isFree

theorem argumentPart_none (none : ∀ item ∈ h, isCall item = false) : argumentPart h = h := by
  have all : ∀ item ∈ h, (!isCall item) = true := by simpa using none
  rw [argumentPart, List.takeWhile_eq_self_iff.2 all, List.dropWhile_eq_nil_iff.2 all]
  exact List.append_nil h

theorem argumentPart_append {before frees rest : BridgeHistory} {call : BridgeItem}
    (none : ∀ item ∈ before, isCall item = false) (calls : isCall call = true)
    (all : ∀ item ∈ frees, isFree item = true) (ends : rest.takeWhile isFree = []) :
    argumentPart (before ++ call :: (frees ++ rest)) = before ++ call :: frees := by
  have skip : ∀ item ∈ before, (!isCall item) = true := by simpa using none
  rw [argumentPart, List.takeWhile_append_of_pos skip, List.dropWhile_append_of_pos skip]
  simp only [List.takeWhile_cons, List.dropWhile_cons, calls, Bool.not_true, Bool.false_eq_true,
    if_false, List.append_nil, List.takeWhile_append_of_pos all, ends]

theorem exec_freeValues {values : List JSValue} {out : Outcome Unit}
    (run : Exec bridge.meaning (Wrapper.freeValues values) w h out u) :
    out = .returned () ∧ (∀ p, references h p = -totalAt p values) ∧
      ∀ item ∈ h, isFree item = true := by
  induction values generalizing w h with
  | nil =>
    obtain ⟨rfl, rfl, rfl⟩ := exec_ret run
    exact ⟨rfl, fun p => rfl, by simp⟩
  | cons v values ih =>
    rcases exec_bind run with ⟨⟨⟩, s, before, after, first, last, rfl⟩ | ⟨first, -⟩
    · obtain ⟨rfl, balance, frees⟩ := ih last
      obtain ⟨-, -, calls⟩ := exec_freeValue first
      refine ⟨rfl, fun p => ?_, ?_⟩
      · rw [references_append, references_freeValue first, balance, totalAt_cons]
        omega
      · intro item member
        rcases List.mem_append.1 member with early | late
        · obtain ⟨a, x, rfl⟩ := calls item early
          rfl
        · exact frees item late
    · cases (exec_freeValue first).1

def callResult (h : BridgeHistory) : Option JSValue := (h.filterMap callAnswer?).head?

theorem noCall_noAnswer (none : ∀ item ∈ h, isCall item = false) : h.filterMap callAnswer? = [] := by
  apply List.filterMap_eq_nil_iff.2
  intro item member
  have other := none item member
  cases item with
  | prim c a s => rfl
  | call e a s =>
    cases e with
    | java f args => rfl
    | engine e =>
      cases e with
      | call func this args => cases other
      | _ => rfl

/-- All arguments are converted and the function returns, or no argument of those converted
    is an allocation. -/
def SparesArguments (args : List (Option JavaObject)) (h : BridgeHistory) : Prop :=
  (args.all convertible = true ∧ callResult h ≠ some .exception) ∨
    ∀ o ∈ convertedPart args, allocates o = false

theorem exec_callWith {func : Nat} {jsObj : JSValue} {arguments freed : List JSValue} {fuel : Nat}
    {out : Outcome (Option JavaObject)}
    (run : Exec bridge.meaning (Wrapper.callWith env func jsObj arguments freed fuel) w h out u) :
    ∃ v s frees rest, h = .call (.engine (.call (.object func) jsObj arguments)) (.value v) s ::
        (frees ++ rest) ∧ (∀ item ∈ frees, isFree item = true) ∧ rest.takeWhile isFree = [] ∧
      ∀ p, references frees p = if v.isException then 0 else -totalAt p freed := by
  obtain ⟨a, s, rest, answers, tail, rfl⟩ := exec_enter run
  obtain ⟨v, rfl⟩ := reply_call answers
  rw [Prog.bind_ret] at tail
  cases failed : v.isException with
  | true =>
    replace tail : Exec bridge.meaning (if v.isException then
      (throwPendingJSException env).bind fun _ => .ret none else
      (Wrapper.freeValues freed).bind fun _ => (executePendingJobLoop env fuel).bind fun finished =>
        if finished then toJavaObject env jsObj v true else
          (freeValue v).bind fun _ => .ret none) s rest out u := tail
    rw [if_pos failed] at tail
    obtain ⟨a, x, later, acts, -, rfl⟩ := exec_prim tail
    exact ⟨v, s, [], _, rfl, by simp, rfl, fun p => by rw [if_pos failed]; rfl⟩
  | false =>
    replace tail : Exec bridge.meaning (if v.isException then
      (throwPendingJSException env).bind fun _ => .ret none else
      (Wrapper.freeValues freed).bind fun _ => (executePendingJobLoop env fuel).bind fun finished =>
        if finished then toJavaObject env jsObj v true else
          (freeValue v).bind fun _ => .ret none) s rest out u := tail
    rw [failed, if_neg Bool.false_ne_true] at tail
    rcases exec_bind tail with ⟨⟨⟩, x, frees, later, first, last, rfl⟩ | ⟨first, -⟩
    · obtain ⟨-, balance, all⟩ := exec_freeValues first
      obtain ⟨a, y, rest, acts, -, rfl⟩ := exec_prim last
      refine ⟨v, s, frees, _, rfl, all, rfl, fun p => ?_⟩
      rw [failed, if_neg Bool.false_ne_true]
      exact balance p
    · cases (exec_freeValues first).1

theorem references_call {func thisObj : Nat} {args : List (Option JavaObject)} {fuel : Nat}
    {out : Outcome (Option JavaObject)} (clear : w.javaException = none)
    (run : Exec bridge.meaning (Wrapper.call env func thisObj args fuel) w h out u) :
    (∀ p, references (argumentPart h) p = countAt p (callResult h)) ↔ SparesArguments args h := by
  rcases exec_bind run with ⟨r, x, before, after, first, last, rfl⟩ | ⟨first, -⟩
  · obtain ⟨new, freed, all, same⟩ := exec_callArguments clear first
    simp only [List.nil_append] at same
    cases same
    cases can : args.all convertible with
    | false =>
      rw [can] at last
      obtain ⟨rfl, -, -⟩ := exec_ret last
      rw [List.append_nil, argumentPart_none all.noCall, callResult, noCall_noAnswer all.noCall]
      simp only [all.balance]
      unfold SparesArguments
      rw [can, ← all.counted, ← totalAt_zero_iff]
      simp
    | true =>
      rw [can] at last
      obtain ⟨v, s, frees, rest, rfl, isFrees, ends, balance⟩ := exec_callWith last
      have part := argumentPart_append all.noCall (show isCall (.call (.engine (.call (.object func)
        (if thisObj = 0 then .undefined else .object thisObj) new)) (.value v) s) = true from rfl)
        isFrees ends
      have result : callResult (before ++ .call (.engine (.call (.object func)
          (if thisObj = 0 then .undefined else .object thisObj) new)) (.value v) s ::
            (frees ++ rest)) = some v := by
        rw [callResult, List.filterMap_append, noCall_noAnswer all.noCall]
        rfl
      have net : ∀ p, references (before ++ .call (.engine (.call (.object func)
          (if thisObj = 0 then .undefined else .object thisObj) new)) (.value v) s ::
            frees) p = countAt p (some v) + if v.isException then totalAt p freed else 0 := by
        intro p
        rw [references_append, references_cons, all.balance, balance]
        simp only [Item.gained, Item.given, Item.taken, EngineCall.consumed, countAt_none]
        split <;> omega
      rw [part, result]
      simp only [net]
      unfold SparesArguments
      rw [result, can, ← all.counted, ← totalAt_zero_iff]
      cases failed : v.isException with
      | true =>
        have thrown : v = .exception := of_decide_eq_true failed
        simp [thrown]
      | false =>
        have other : v ≠ .exception := of_decide_eq_false failed
        simp [other]
  · obtain ⟨new, freed, -, dead⟩ := exec_callArguments clear first
    cases dead

end Calls

section Transfers
variable {w u : World} {h : BridgeHistory}

/-- The four places where values made from Java objects go to the engine. -/
inductive Transfer where
  | call (func thisObj : Nat) (args : List (Option JavaObject)) (fuel : Nat)
  | setProperty (objValue : Nat) (name : Option JavaString) (value : Option JavaObject)
  | set (objValue : Nat) (value : Option JavaObject) (index : Int32)
  | callback (callbackId : Int32) (thisVal : JSValue) (argv : List JSValue)

namespace Transfer

/-- Java code enters it, with no exception pending. -/
def isNative : Transfer → Bool
  | .callback _ _ _ => false
  | _ => true

def program (t : ThreadId) : Transfer → Program Answer
  | .call func thisObj args fuel => (NativeOp.call func thisObj args fuel).program t
  | .setProperty objValue name value => (NativeOp.setProperty objValue name value).program t
  | .set objValue value index => (NativeOp.set objValue value index).program t
  | .callback callbackId thisVal argv =>
    (Wrapper.jsFuncCall callbackId thisVal argv).bind fun v => .ret (.value v)

def part : Transfer → BridgeHistory → BridgeHistory
  | .call _ _ _ _, h => argumentPart h
  | _, h => h

/-- The value that is left to be accounted for: the result of a call, and what a callback
    gives to the engine. -/
def handedOver : Transfer → BridgeHistory → Outcome Answer → Option JSValue
  | .call _ _ _ _, h, _ => callResult h
  | .callback _ _ _, _, .returned a => some a.toValue
  | _, _, _ => none

/-- Every reference made or duplicated for the values has been consumed or released. -/
def Balanced (x : Transfer) (h : BridgeHistory) (out : Outcome Answer) : Prop :=
  ∀ p, references (x.part h) p = countAt p (x.handedOver h out)

/-- No value is left behind by a call that fails, and none is duplicated for an array. -/
def Sparing : Transfer → BridgeHistory → Prop
  | .call _ _ args _, h => SparesArguments args h
  | .set _ value _, _ => leaksInArray value = false
  | _, _ => True

end Transfer

theorem exec_result {R S : Type} {p : Program R} {f : R → S} {out : Outcome S}
    (run : Exec bridge.meaning (p.bind fun r => .ret (f r)) w h out u) :
    (∃ r, Exec bridge.meaning p w h (.returned r) u ∧ out = .returned (f r)) ∨
    (Exec bridge.meaning p w h .crashed u ∧ out = .crashed) := by
  rcases exec_bind run with ⟨r, s, before, after, first, last, rfl⟩ | dead
  · obtain ⟨rfl, rfl, rfl⟩ := exec_ret last
    exact Or.inl ⟨r, by rwa [List.append_nil], rfl⟩
  · exact Or.inr dead

/-- The references of the values Java hands over balance exactly if a call with allocated
    arguments does not fail, and neither a callback nor a large Long is put in an array. -/
theorem transfers_balanced_iff {x : Transfer} {t : ThreadId} {out : Outcome Answer}
    (clear : x.isNative = true → w.javaException = none)
    (run : Exec bridge.meaning (x.program t) w h out u) : x.Balanced h out ↔ x.Sparing h := by
  cases x with
  | call func thisObj args fuel =>
    rcases exec_result run with ⟨r, body, -⟩ | ⟨body, -⟩
    · exact references_call (clear rfl) body
    · exact references_call (clear rfl) body
  | set objValue value index =>
    rcases exec_result run with ⟨r, body, -⟩ | ⟨body, -⟩
    · exact references_set body
    · exact references_set body
  | setProperty objValue name value =>
    refine iff_of_true (fun p => ?_) trivial
    cases name with
    | none =>
      obtain ⟨a, s, rest, acts, tail, rfl⟩ := exec_prim run
      obtain ⟨rfl, -, -⟩ := exec_ret tail
      rfl
    | some name =>
      rcases exec_result run with ⟨r, body, -⟩ | ⟨body, -⟩
      · exact references_setProperty body p
      · exact references_setProperty body p
  | callback callbackId thisVal argv =>
    refine iff_of_true (fun p => ?_) trivial
    rcases exec_result run with ⟨r, body, rfl⟩ | ⟨body, rfl⟩
    · exact references_jsFuncCall callbackId thisVal argv _ _ _ _ body p
    · exact references_jsFuncCall callbackId thisVal argv _ _ _ _ body p

/-- Thread 0 makes a JS array and enters a call of its method set. -/
def entersSet (value : Option JavaObject) : List BridgeLabel :=
  constructing ++
  ([.event (.spawn 0 .createNewJSArray), .call (.native 0), .tau, .tau,
    .event (.engine (.alloc 3 (some .array))), .answer (.value (.object 3)), .tau, .tau,
    .answer (.int 1), .tau, .tau, .tau, .tau, .event (.retire 0),
    .event (.spawn 0 (.set (some (.handle 0 .jsArray 3 0)) value 0)), .call (.native 0)] : List BridgeLabel)

theorem string_stored : ∃ (c : BridgeConfig) (h : BridgeHistory) (a : Answer) (u : World),
    bridge.run (entersSet (some (.string []))) (initial 1 fun _ => []) = some c ∧
    c.state.javaException = none ∧
    Exec bridge.meaning ((Transfer.set 3 (some (.string [])) 0).program 0) c.state h (.returned a) u ∧
    ((Transfer.set 3 (some (.string [])) 0).Balanced h (.returned a) ↔
      (Transfer.set 3 (some (.string [])) 0).Sparing h) := by
  have body : ∃ c, bridge.run (entersSet (some (.string []))) (initial 1 fun _ => []) = some c ∧
      c.state.javaException = none ∧
      Can bridge.meaning ((Transfer.set 3 (some (.string [])) 0).program 0) [] c.state
        fun _ _ _ => True := by
    refine ⟨_, rfl, rfl, ?_⟩
    refine can_prim rfl ?_
    refine can_enter (a := .value (.string 4 (.ofUnits [])))
      ⟨_, _, [.event (.engine (.alloc 4 none))], rfl, rfl, rfl⟩ ?_
    refine can_enter (a := .int 1) ⟨_, _, [], rfl, rfl, rfl⟩ ?_
    exact can_ret trivial
  obtain ⟨c, ran, clear, a, h, u, run, -⟩ := body
  exact ⟨c, h, a, u, ran, clear, run, transfers_balanced_iff (fun _ => clear) run⟩

/-- A callback that is put in an array keeps a reference nobody gives back. -/
theorem stored_callback_leaks : ¬ ∀ (globalObj : Addr) (jvm : List UInt8 → JavaString)
    (labels : List BridgeLabel) (c : BridgeConfig) (x : Transfer) (t : ThreadId)
    (h : BridgeHistory) (out : Outcome Answer) (u : World),
    bridge.run labels (initial globalObj jvm) = some c → c.state.javaException = none →
    c.control = .native (x.program t) →
    Exec bridge.meaning (x.program t) c.state h out u → x.Balanced h out := by
  intro complete
  have body : ∃ c, bridge.run (entersSet (some (.callFunction ⟨0, 0⟩))) (initial 1 fun _ => []) = some c ∧
      c.state.javaException = none ∧
      c.control = .native ((Transfer.set 3 (some (.callFunction ⟨0, 0⟩)) 0).program 0) ∧
      Can bridge.meaning ((Transfer.set 3 (some (.callFunction ⟨0, 0⟩)) 0).program 0) [] c.state
        fun _ h _ => references h 4 = 1 := by
    refine ⟨_, rfl, rfl, rfl, ?_⟩
    refine can_enter (a := .value (.object 4))
      ⟨_, _, [.event (.engine (.alloc 4 (some .function)))], rfl, rfl, rfl⟩ ?_
    refine can_prim rfl (can_prim rfl (can_prim rfl ?_))
    refine can_enter (a := .int 1) ⟨_, _, [], rfl, rfl, rfl⟩ ?_
    exact can_ret rfl
  obtain ⟨c, ran, clear, running, a, h, u, run, left⟩ := body
  have balanced := complete 1 _ _ c _ 0 h _ u ran clear running run 4
  have none : references h 4 = 0 := balanced
  have some : references h 4 = 1 := left
  omega

end Transfers
end QuickJSBridge
