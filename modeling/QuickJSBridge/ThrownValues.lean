import QuickJSBridge.FailureReporting

/- The text a thrown value is reported with. It is put together from what the engine answers
   about the value, and a conversion that fails answers the null pointer. -/
namespace QuickJSBridge
open HostProgram ReentrantMachine

section Descriptions

/-- What a script makes of the value it throws: its own text if it is no Error, and otherwise
    what its accessors answer and the texts of these. No text stands for a conversion that
    fails. -/
structure Thrown where
  isError : Bool
  text : Option (List UInt8)
  message : JSValue
  messageText : Option (List UInt8)
  stack : JSValue
  stackText : Option (List UInt8)

def stackReport (stack : JSValue) (stackText : Option (List UInt8)) : Option (List Piece) :=
  if stack.isUndefined then some []
  else stackText.map fun bytes => [.literal "\n", .js bytes]

/-- The text of the report, if all conversions it needs succeed. -/
def Thrown.report (t : Thrown) : Option (List Piece) :=
  if t.isError then t.messageText.bind fun bytes => (stackReport t.stack t.stackText).map ([.js bytes] ++ ·)
  else t.text.map fun bytes => [.js bytes]

/-- A question about a value, with the answer of the engine. -/
inductive Inquiry where
  | isError (v : JSValue) (b : Bool)
  | property (obj : JSValue) (name : List UInt8) (v : JSValue)
  | text (v : JSValue) (bytes : Option (List UInt8))

def inquiry? : BridgeItem → Option Inquiry
  | .prim (.isError v) (.bool b) _ => some (.isError v b)
  | .call (.engine (.getPropertyStr obj name)) (.value v) _ =>
    if name = ascii "message" ∨ name = ascii "stack" then some (.property obj name v) else none
  | .call (.engine (.toCString v)) (.text bytes) _ => some (.text v bytes)
  | _ => none

def stackInquiries (error stack : JSValue) (stackText : Option (List UInt8)) : List Inquiry :=
  .property error (ascii "stack") stack ::
    if stack.isUndefined then [] else [.text stack stackText]

/-- The questions the report of a value asks, up to the first conversion that fails. -/
def Thrown.inquiries (t : Thrown) (error : JSValue) : List Inquiry :=
  .isError error t.isError ::
    if t.isError then
      .property error (ascii "message") t.message :: .text t.message t.messageText ::
        if t.messageText.isSome then stackInquiries error t.stack t.stackText else []
    else [.text error t.text]

theorem report_of_inquiries {t t' : Thrown} {error : JSValue}
    (same : t.inquiries error = t'.inquiries error) : t.report = t'.report := by
  obtain ⟨isError, text, message, messageText, stack, stackText⟩ := t
  obtain ⟨isError', text', message', messageText', stack', stackText'⟩ := t'
  simp only [Thrown.inquiries, List.cons.injEq, Inquiry.isError.injEq, true_and] at same
  obtain ⟨rfl, same⟩ := same
  cases isError with
  | false =>
    simp only [Bool.false_eq_true, if_false, List.cons.injEq, Inquiry.text.injEq, true_and,
      and_true] at same
    subst same
    rfl
  | true =>
    simp only [if_true, List.cons.injEq, Inquiry.property.injEq, Inquiry.text.injEq, true_and] at same
    obtain ⟨rfl, ⟨-, rfl⟩, same⟩ := same
    cases messageText with
    | none => rfl
    | some bytes =>
      simp only [Option.isSome_some, if_true, stackInquiries, List.cons.injEq,
        Inquiry.property.injEq, true_and] at same
      obtain ⟨rfl, same⟩ := same
      simp only [Thrown.report, stackReport, if_true, Option.bind_some]
      split
      next => rfl
      next defined =>
        simp only [defined, Bool.false_eq_true, if_false, List.cons.injEq, Inquiry.text.injEq,
          true_and, and_true] at same
        rw [same]

end Descriptions

section Texts
variable {w u : World} {h : BridgeHistory} {v error : JSValue}

def textOutcome (text : Option (List Piece)) : Outcome (List Piece) :=
  match text with
  | none => .crashed
  | some text => .returned text

theorem reply_toCString {a : Answer} (reply : bridge.Reply (.engine (.toCString v)) w a u) :
    ∃ bytes, a = .text bytes := by
  obtain ⟨s, s', labels, -, -, back⟩ := reply
  replace back : deliverEngine (.toCString v) a s' = some u := back
  cases a with
  | text bytes => exact ⟨bytes, rfl⟩
  | _ => cases v <;> cases back

theorem reply_property {a : Answer} {obj : JSValue} {name : List UInt8}
    (reply : bridge.Reply (.engine (.getPropertyStr obj name)) w a u) : ∃ v, a = .value v := by
  obtain ⟨s, s', labels, -, -, back⟩ := reply
  replace back : deliverEngine (.getPropertyStr obj name) a s' = some u := back
  cases a with
  | value v => exact ⟨v, rfl⟩
  | _ => cases back

abbrev Tells {R : Type} (p : Program R) (Q : List Inquiry → Outcome R → Prop) : Prop :=
  Ends bridge.meaning p fun h out => Q (h.filterMap inquiry?) out

section Rules
variable {R S : Type}

theorem tells_prim {c : Prim} {next : Answer → Program R} {Q : List Inquiry → Outcome R → Prop}
    (rest : ∀ w a u, exec c w = some (a, u) →
      Tells (next a) fun later => Q ((inquiry? (.prim c a u)).toList ++ later)) :
    Tells (.prim c next) Q := by
  refine ends_prim fun w a u acts s h out t run => ?_
  have last := rest w a u acts s h out t run
  cases asked : inquiry? (.prim c a u) <;> simpa [asked] using last

theorem tells_enter {e : ForeignCall} {next : Answer → Program R}
    {Q : List Inquiry → Outcome R → Prop}
    (rest : ∀ w a u, bridge.Reply e w a u →
      Tells (next a) fun later => Q ((inquiry? (.call e a u)).toList ++ later)) :
    Tells (.enter e next) Q := by
  refine ends_enter fun w a u answers s h out t run => ?_
  have last := rest w a u answers s h out t run
  cases asked : inquiry? (.call e a u) <;> simpa [asked] using last

theorem tells_bind {p : Program R} {f : R → Program S} {M : List Inquiry → Outcome R → Prop}
    {Q : List Inquiry → Outcome S → Prop} (first : Tells p M)
    (dead : ∀ asked, M asked .crashed → Q asked .crashed)
    (rest : ∀ r asked, M asked (.returned r) → Tells (f r) fun later => Q (asked ++ later)) :
    Tells (p.bind f) Q := by
  refine ends_bind first (fun h => dead _) fun r h asked s later out t run => ?_
  have last : Q (h.filterMap inquiry? ++ later.filterMap inquiry?) out :=
    rest r _ asked s later out t run
  rwa [← List.filterMap_append] at last

abbrev AsksNothing (p : Program R) : Prop := Tells p fun asked out => asked = [] ∧ ∃ r, out = .returned r

theorem tells_after {p : Program R} {f : R → Program S} {Q : List Inquiry → Outcome S → Prop}
    (first : AsksNothing p) (rest : ∀ r, Tells (f r) Q) : Tells (p.bind f) Q := by
  refine tells_bind first ?_ ?_
  · rintro asked ⟨-, r, impossible⟩
    cases impossible
  · rintro r asked ⟨rfl, -⟩
    exact rest r

end Rules

theorem asksNothing_freeValue (v : JSValue) : AsksNothing (freeValue v) := by
  unfold freeValue
  split
  · exact ends_ret ⟨rfl, (), rfl⟩
  · exact tells_enter fun _ _ _ _ => ends_ret ⟨rfl, (), rfl⟩

theorem asksNothing_findOnError (global : JSValue) : AsksNothing (findOnError global) := by
  have read : ∀ name, name ≠ ascii "message" → name ≠ ascii "stack" →
      AsksNothing (enterValue (.getPropertyStr global name)) := by
    intro name noMessage noStack
    refine tells_enter fun w a u answers => ends_ret ?_
    obtain ⟨v, rfl⟩ := reply_property answers
    simp [inquiry?, noMessage, noStack]
  refine tells_after (read _ (by decide) (by decide)) fun onerror => ?_
  split
  · exact read _ (by decide) (by decide)
  · exact ends_ret ⟨rfl, _, rfl⟩

theorem asksNothing_tryToTriggerOnError (error : JSValue) :
    AsksNothing (tryToTriggerOnError error) := by
  refine tells_after (tells_prim fun _ _ _ _ => ends_ret ⟨rfl, _, rfl⟩) fun global => ?_
  refine tells_after (asksNothing_findOnError global) fun onerror => ?_
  split
  · exact ends_ret ⟨rfl, (), rfl⟩
  · refine tells_after (tells_enter fun _ _ _ _ => ends_ret ⟨rfl, _, rfl⟩) fun _ => ?_
    exact tells_after (asksNothing_freeValue onerror) fun _ => asksNothing_freeValue global

theorem tells_property {name : List UInt8} (error : JSValue)
    (counts : name = ascii "message" ∨ name = ascii "stack") :
    Tells (enterValue (.getPropertyStr error name)) fun asked out =>
      ∃ v, asked = [.property error name v] ∧ out = .returned v := by
  refine tells_enter fun w a u answers => ends_ret ?_
  obtain ⟨v, rfl⟩ := reply_property answers
  exact ⟨v, by simp [inquiry?, counts], rfl⟩

theorem tells_appendText (v : JSValue) : Tells (appendText v) fun asked out =>
    ∃ bytes, asked = [.text v bytes] ∧
      out = textOutcome (bytes.map fun bytes => [.js bytes]) := by
  refine tells_enter fun w a u answers => ?_
  obtain ⟨bytes, rfl⟩ := reply_toCString answers
  cases bytes with
  | none => exact ends_crash ⟨none, rfl, rfl⟩
  | some bytes => exact ends_ret ⟨some bytes, rfl, rfl⟩

theorem tells_appendStack (stack : JSValue) : Tells (appendStack stack) fun asked out =>
    ∃ stackText, asked = (if stack.isUndefined then [] else [.text stack stackText]) ∧
      out = textOutcome (stackReport stack stackText) := by
  unfold appendStack stackReport
  split
  · exact ends_ret ⟨none, rfl, rfl⟩
  · refine tells_bind (tells_appendText stack) ?_ ?_
    · rintro asked ⟨bytes, rfl, dead⟩
      cases bytes with
      | none => exact ⟨none, rfl, rfl⟩
      | some bytes => cases dead
    · rintro text asked ⟨bytes, rfl, same⟩
      cases bytes with
      | none => cases same
      | some bytes =>
        cases same
        exact ends_ret ⟨some bytes, rfl, rfl⟩

theorem tells_stack (error : JSValue) (text : List Piece) :
    Tells ((enterValue (.getPropertyStr error (ascii "stack"))).bind fun val =>
      (appendStack val).bind fun stack => (freeValue val).bind fun _ => .ret (text ++ stack))
      fun asked out => ∃ stack stackText, asked = stackInquiries error stack stackText ∧
        out = textOutcome ((stackReport stack stackText).map (text ++ ·)) := by
  refine tells_bind (tells_property error (Or.inr rfl)) ?_ ?_
  · rintro asked ⟨v, -, impossible⟩
    cases impossible
  · rintro stack asked ⟨v, rfl, same⟩
    cases same
    refine tells_bind (tells_appendStack stack) ?_ ?_
    · rintro asked ⟨stackText, rfl, dead⟩
      refine ⟨stack, stackText, rfl, ?_⟩
      cases made : stackReport stack stackText with
      | none => rfl
      | some pieces =>
        rw [made] at dead
        cases dead
    · rintro pieces asked ⟨stackText, rfl, same⟩
      refine tells_after (asksNothing_freeValue stack) fun _ => ends_ret ?_
      refine ⟨stack, stackText, by simp [stackInquiries], ?_⟩
      cases made : stackReport stack stackText with
      | none =>
        rw [made] at same
        cases same
      | some pieces =>
        rw [made] at same
        cases same
        rfl

theorem tells_getJSErrorStr (error : JSValue) : Tells (getJSErrorStr error) fun asked out =>
    ∃ t : Thrown, asked = t.inquiries error ∧ out = textOutcome t.report := by
  refine tells_bind (M := fun asked out => ∃ isError, asked = [.isError error isError] ∧
    out = .returned isError) ?_ ?_ ?_
  · refine tells_prim fun w a u acts => ends_ret ?_
    cases of_ite_some acts
    exact ⟨_, rfl, rfl⟩
  · rintro asked ⟨isError, -, impossible⟩
    cases impossible
  · rintro isError asked ⟨isError', rfl, same⟩
    cases same
    cases isError with
    | false =>
      intro w h out u run
      obtain ⟨text, asked, same⟩ := tells_appendText error w h out u run
      exact ⟨⟨false, text, .null, none, .null, none⟩, by rw [asked]; rfl, same⟩
    | true =>
      refine tells_after (asksNothing_tryToTriggerOnError error) fun _ => ?_
      refine tells_bind (tells_property error (Or.inl rfl)) ?_ ?_
      · rintro asked ⟨v, -, impossible⟩
        cases impossible
      · rintro message asked ⟨v, rfl, same⟩
        cases same
        refine tells_bind (tells_appendText message) ?_ ?_
        · rintro asked ⟨bytes, rfl, dead⟩
          cases bytes with
          | none => exact ⟨⟨true, none, message, none, .null, none⟩, rfl, rfl⟩
          | some bytes => cases dead
        · rintro text asked ⟨bytes, rfl, same⟩
          cases bytes with
          | none => cases same
          | some bytes =>
            cases same
            refine tells_after (asksNothing_freeValue message) fun _ => ?_
            intro w h out u run
            obtain ⟨stack, stackText, asked, same⟩ := tells_stack error _ w h out u run
            refine ⟨⟨true, none, message, some bytes, stack, stackText⟩, ?_, same⟩
            rw [asked]
            rfl

end Texts

section Reports
variable {R S : Type}

def Reports (q : Program R) : Prop :=
  ∃ env v r, q = (throwPendingJSException env).bind fun _ => (freeValue v).bind fun _ => .ret r

abbrev ReportsFirst (p : Program R) : Prop := FirstAt Prim.takes (fun _ => false) Reports p

abbrev Untaken (p : Program R) : Prop := p.Within (fun c => c.takes = false) fun _ => false = false

theorem untaken {p : Program R} (issues : Issues Steady p) : Untaken p := by
  apply Prog.within_mono issues
  · intro c may
    cases c <;> first | rfl | cases may
  · exact fun _ _ => rfl

theorem reports_result {f : R → S} {q : Program R} (reports : Reports q) :
    Reports (q.bind fun r => .ret (f r)) := by
  obtain ⟨env, v, r, rfl⟩ := reports
  refine ⟨env, v, f r, ?_⟩
  simp only [Prog.bind_assoc, Prog.bind_ret]

theorem reportsFirst_result {p : Program R} {f : R → S} (first : ReportsFirst p) :
    ReportsFirst (p.bind fun r => .ret (f r)) :=
  firstAt_bind first (fun _ => reports_result) fun _ => trivial

theorem reportsFirst_still {p : Program R} (issues : Issues Steady p) : ReportsFirst p :=
  firstAt_unmarked (untaken issues)

theorem reportsFirst_after {p : Program R} {f : R → Program S} (issues : Issues Steady p)
    (rest : ∀ r, ReportsFirst (f r)) : ReportsFirst (p.bind f) :=
  firstAt_after (untaken issues) rest

theorem reportsFirst_now (env : JNIEnv) (v : JSValue) (r : R) :
    ReportsFirst ((throwPendingJSException env).bind fun _ => (freeValue v).bind fun _ => .ret r) :=
  firstAt_prim rfl ⟨env, v, r, rfl⟩

theorem reportsFirst_reported (env : JNIEnv) (r : R) :
    ReportsFirst ((throwPendingJSException env).bind fun _ => .ret r) :=
  reportsFirst_now env .undefined r

def ReportsJob (q : Program Bool) : Prop :=
  ∃ env, q = (throwPendingJSException env).bind fun _ => .ret false

theorem untaken_rejections (fuel : Nat) : Untaken (throwIfUnhandledRejections fuel) := by
  have texts : ∀ error, Untaken (rejectionsText fuel error) := by
    induction fuel with
    | zero => exact fun _ => trivial
    | succ fuel ih =>
      intro error
      refine Prog.within_bind (untaken (issues_ask rfl)) fun empty => ?_
      split
      · trivial
      · refine Prog.within_bind (untaken (issues_askValue rfl)) fun reason => ?_
        refine Prog.within_bind (untaken (issues_getJSErrorStr steady_plain reason)) fun text => ?_
        refine Prog.within_bind (untaken (issues_freeValue reason)) fun _ => ?_
        exact Prog.within_bind (untaken (issues_act rfl)) fun _ => ih _
  refine Prog.within_bind (texts []) fun error => ?_
  split
  · trivial
  · refine Prog.within_bind (Prog.within_bind (untaken (issues_ask rfl)) fun pending => ?_)
      fun _ => trivial
    split
    · trivial
    · exact ⟨rfl, fun _ => trivial⟩

theorem firstAt_pendingJobRounds (env : JNIEnv) (fuel : Nat) :
    FirstAt Prim.takes (fun _ => false) ReportsJob (pendingJobRounds env fuel) := by
  induction fuel with
  | zero => trivial
  | succ fuel ih =>
    have job : Untaken executePendingJob := by
      have loops : Issues (fun k => k = .loop) executePendingJob := issues_executePendingJob rfl
      refine Prog.within_mono loops ?_ fun _ _ => rfl
      intro c may
      cases c <;> first | rfl | cases may
    refine firstAt_after job fun err => ?_
    split
    · exact ih
    · split
      · refine firstAt_prim rfl ⟨env, ?_⟩
        exact (Prog.bind_assoc getPendingErrorStr (throwJSException env) fun _ => .ret false).symm
      · trivial

theorem firstAt_executePendingJobLoop (env : JNIEnv) (fuel : Nat) :
    FirstAt Prim.takes (fun _ => false) ReportsJob (executePendingJobLoop env fuel) := by
  refine firstAt_after (untaken (issues_ask rfl)) fun pending => ?_
  split
  · trivial
  · refine firstAt_bind (firstAt_pendingJobRounds env fuel) ?_ fun finished => ?_
    · rintro q ⟨env, rfl⟩
      exact ⟨env, Prog.bind_assoc _ _ _⟩
    · split
      · refine firstAt_after (untaken (issues_act rfl)) fun _ => ?_
        exact firstAt_after (untaken_rejections fuel) fun _ => trivial
      · trivial

theorem reportsFirst_looped (env : JNIEnv) (fuel : Nat) {value : JSValue} {r : R}
    {result : Program R} (after : ReportsFirst result) :
    ReportsFirst ((executePendingJobLoop env fuel).bind fun finished =>
      if finished then result else (freeValue value).bind fun _ => .ret r) := by
  refine firstAt_bind (firstAt_executePendingJobLoop env fuel) ?_ fun finished => ?_
  · rintro q ⟨env, rfl⟩
    exact ⟨env, value, r, Prog.bind_assoc _ _ _⟩
  · split
    · exact after
    · exact reportsFirst_still (issues_bind (issues_freeValue value) fun _ => trivial)

end Reports

section Operations

theorem reportsFirst_evaluated {R : Type} (env : JNIEnv) (fuel : Nat) {v : JSValue} {r : R}
    {result : Program R} (issues : Issues Steady result) :
    ReportsFirst (if v.isException then (throwPendingJSException env).bind fun _ => .ret r
      else (executePendingJobLoop env fuel).bind fun finished =>
        if finished then result else (freeValue v).bind fun _ => .ret r) := by
  split
  · exact reportsFirst_reported env r
  · exact reportsFirst_looped env fuel (reportsFirst_still issues)

theorem reportsFirst_call (env : JNIEnv) (func thisObj : Nat) (args : List (Option JavaObject))
    (fuel : Nat) : ReportsFirst (Wrapper.call env func thisObj args fuel) := by
  refine reportsFirst_after (issues_callArguments steady_plain steady_store env args [] []) ?_
  intro converted
  cases converted with
  | none => trivial
  | some converted =>
    refine reportsFirst_after (issues_enterValue rfl) fun ret => ?_
    split
    · exact reportsFirst_reported env none
    · refine reportsFirst_after (issues_freeValues _) fun _ => ?_
      exact reportsFirst_looped env fuel
        (reportsFirst_still (issues_toJavaObject steady_plain env _ ret true))

theorem reportsFirst_execute (env : JNIEnv) (byteCode : List UInt8) (fuel : Nat) :
    ReportsFirst (Wrapper.execute env byteCode fuel) := by
  refine reportsFirst_after (issues_enterValue rfl) fun obj => ?_
  split
  · exact reportsFirst_reported env none
  · refine reportsFirst_after (issues_enterInt rfl) fun status => ?_
    split
    · trivial
    · refine reportsFirst_after (issues_enterValue rfl) fun val => ?_
      refine reportsFirst_looped env fuel ?_
      split
      · exact reportsFirst_reported env none
      · exact reportsFirst_still (issues_toJavaObject steady_plain env obj val true)

theorem reportsFirst_compile (env : JNIEnv) (source fileName : JavaString) (isModule : Bool) :
    ReportsFirst (Wrapper.compile env source fileName isModule) := by
  refine reportsFirst_after (issues_getStringUTFChars steady_plain env source) fun source => ?_
  refine reportsFirst_after (issues_getStringUTFChars steady_plain env fileName) fun name => ?_
  refine reportsFirst_after (issues_enterValue rfl) fun compiled => ?_
  split
  · exact reportsFirst_reported env none
  · refine reportsFirst_after (issues_enterText rfl) fun buffer => ?_
    have written : ∀ empty, ReportsFirst (((throwPendingJSException env).when empty).bind fun _ =>
        (freeValue compiled).bind fun _ => .ret (buffer.filter (!·.isEmpty))) := by
      intro empty
      cases empty with
      | false =>
        rw [Prog.when_false, Prog.bind_ret]
        exact reportsFirst_still (issues_bind (issues_freeValue compiled) fun _ => trivial)
      | true => exact reportsFirst_now env compiled _
    exact written _

theorem reportsFirst_checked {R : Type} {env : JNIEnv} {v : JSValue} {r : R} {p : Program R}
    (issues : Issues Steady p) : ReportsFirst (if v.isException then
      (throwPendingJSException env).bind fun _ => .ret r else p) := by
  split
  · exact reportsFirst_reported env r
  · exact reportsFirst_still issues

theorem reportsFirst_nonNull {env : JNIEnv} {argument : Option JavaString} {message : String}
    {p : JavaString → Program Answer} (given : ∀ s, ReportsFirst (p s)) :
    ReportsFirst (nonNull env argument message p) := by
  cases argument with
  | none => exact reportsFirst_still (issues_bind (issues_act rfl) fun _ => trivial)
  | some s => exact given s

theorem reportsFirst_program {op : NativeOp} (made : op.isConstructor = false) (t : ThreadId) :
    ReportsFirst (op.program t) := by
  cases op with
  | createContext => cases made
  | evaluate script fileName fuel =>
    refine reportsFirst_nonNull fun script => reportsFirst_nonNull fun fileName => ?_
    refine reportsFirst_result ?_
    refine reportsFirst_after (issues_getStringUTFChars steady_plain _ script) fun script => ?_
    refine reportsFirst_after (issues_getStringUTFChars steady_plain _ fileName) fun name => ?_
    exact reportsFirst_after (issues_enterValue rfl) fun v =>
      reportsFirst_evaluated _ fuel (issues_of_calm (calm_globalResult steady_plain _ v))
  | evaluateModule script fileName fuel =>
    refine reportsFirst_nonNull fun script => reportsFirst_nonNull fun fileName => ?_
    refine reportsFirst_result ?_
    refine reportsFirst_after (issues_getStringUTFChars steady_plain _ script) fun script => ?_
    refine reportsFirst_after (issues_getStringUTFChars steady_plain _ fileName) fun name => ?_
    exact reportsFirst_after (issues_enterValue rfl) fun v =>
      reportsFirst_evaluated _ fuel (issues_of_calm (calm_globalResult steady_plain _ v))
  | compile source fileName isModule =>
    exact reportsFirst_nonNull fun source => reportsFirst_nonNull fun fileName =>
      reportsFirst_result (reportsFirst_compile _ source fileName isModule)
  | execute bytecode fuel =>
    cases bytecode with
    | none => trivial
    | some bytecode => exact reportsFirst_result (reportsFirst_execute _ bytecode fuel)
  | getProperty objValue name =>
    refine reportsFirst_nonNull fun name => reportsFirst_result ?_
    refine reportsFirst_after (issues_getStringUTFChars steady_plain _ name) fun name => ?_
    refine reportsFirst_after (issues_enterValue rfl) fun v => ?_
    exact reportsFirst_checked (issues_toJavaObject steady_plain _ _ v true)
  | length objValue =>
    refine reportsFirst_result (reportsFirst_after (issues_enterValue rfl) fun v => ?_)
    exact reportsFirst_checked (issues_bind (issues_freeValue v) fun _ => trivial)
  | stringify objValue =>
    refine reportsFirst_result (reportsFirst_after (issues_enterValue rfl) fun v => ?_)
    apply reportsFirst_checked
    apply issues_bind (issues_enterText rfl)
    intro result
    exact issues_bind (issues_freeValue v) fun _ => issues_newStringUTF steady_plain _ result
  | parseJSON json =>
    refine reportsFirst_nonNull fun json => reportsFirst_result ?_
    refine reportsFirst_after (issues_getStringUTFChars steady_plain _ json) fun json => ?_
    refine reportsFirst_after (issues_enterValue rfl) fun v => ?_
    exact reportsFirst_checked (issues_toJavaObject steady_plain _ _ v true)
  | call func thisObj args fuel =>
    exact reportsFirst_result (reportsFirst_call _ func thisObj args fuel)
  | runGC => exact reportsFirst_still (issues_unitResult (issues_enter rfl))
  | getGlobalObject =>
    exact reportsFirst_still (issues_javaResult (issues_getGlobalObject steady_plain _))
  | setProperty objValue name value =>
    exact reportsFirst_nonNull fun name => reportsFirst_still
      (issues_unitResult (issues_setProperty steady_plain steady_store _ objValue name value))
  | get objValue index =>
    exact reportsFirst_still (issues_javaResult (issues_get steady_plain _ objValue index))
  | set objValue value index =>
    exact reportsFirst_still
      (issues_unitResult (issues_set steady_plain steady_store _ objValue value index))
  | freeValue objValue =>
    exact reportsFirst_still (issues_unitResult (issues_freeValueNative steady_plain objValue))

end Operations

section Outcomes
variable {w u : World} {h : BridgeHistory} {env : JNIEnv}

theorem exec_getException {out : Outcome JSValue}
    (run : Exec bridge.meaning (askValue .getException) w h out u) :
    h = [.prim .getException (.value w.exception) u] ∧ out = .returned w.exception ∧
      u.javaException = w.javaException := by
  obtain ⟨a, s, rest, acts, tail, rfl⟩ := exec_prim run
  cases acts
  obtain ⟨rfl, rfl, rfl⟩ := exec_ret tail
  exact ⟨rfl, rfl, rfl⟩

theorem exec_throwJSException {text : List Piece} {out : Outcome Unit}
    (run : Exec bridge.meaning (throwJSException env text) w h out u) : out = .returned () ∧
      ((w.javaException.isSome = true ∧ u = w ∧
        h = [.prim (.exceptionCheck env) (.bool true) w]) ∨
      (w.javaException = none ∧ u = { w with javaException := some (.quickJS text) } ∧
        h = [.prim (.exceptionCheck env) (.bool false) w, .prim (.throw env (.quickJS text)) .unit u])) := by
  obtain ⟨a, s, rest, acts, tail, rfl⟩ := exec_prim run
  cases acts
  cases pending : w.javaException with
  | some e =>
    rw [pending] at tail
    obtain ⟨rfl, rfl, rfl⟩ := exec_ret tail
    exact ⟨rfl, Or.inl ⟨rfl, rfl, rfl⟩⟩
  | none =>
    rw [pending] at tail
    obtain ⟨b, s, rest, acts, last, rfl⟩ := exec_prim tail
    cases acts
    obtain ⟨rfl, rfl, rfl⟩ := exec_ret last
    exact ⟨rfl, Or.inr ⟨rfl, rfl, rfl⟩⟩

theorem exec_getPendingErrorStr {out : Outcome (List Piece)}
    (run : Exec bridge.meaning getPendingErrorStr w h out u) :
    ∃ t : Thrown, ∃ s rest, h = .prim .getException (.value w.exception) s :: rest ∧
      h.filterMap inquiry? = t.inquiries w.exception ∧ out = textOutcome t.report ∧
      (∀ item ∈ rest, takesException item = false) ∧
      ∀ env text a s, .prim (.throw env (.quickJS text)) a s ∉ h := by
  have rest : Issues Steady ((getJSErrorStr w.exception).bind fun text =>
      (freeValue w.exception).bind fun _ => .ret text) := by
    apply issues_bind (issues_getJSErrorStr steady_plain w.exception)
    intro text
    exact issues_bind (issues_freeValue w.exception) fun _ => trivial
  rcases exec_bind run with ⟨error, s, before, after, first, last, rfl⟩ | ⟨first, -⟩
  · obtain ⟨rfl, same, -⟩ := exec_getException first
    cases same
    have told : Tells ((getJSErrorStr w.exception).bind fun text =>
        (freeValue w.exception).bind fun _ => .ret text) fun asked out =>
        ∃ t : Thrown, asked = t.inquiries w.exception ∧ out = textOutcome t.report := by
      refine tells_bind (tells_getJSErrorStr w.exception) (fun _ dead => dead) ?_
      rintro text asked ⟨t, rfl, same⟩
      refine tells_after (asksNothing_freeValue w.exception) fun _ => ends_ret ?_
      exact ⟨t, List.append_nil _, same⟩
    obtain ⟨t, asked, same⟩ := told _ _ _ _ last
    obtain ⟨acted, -⟩ := exec_within rest last
    refine ⟨t, s, after, rfl, asked, same, ?_, ?_⟩
    · intro item later
      cases item with
      | call e a s => rfl
      | prim c a s => exact steady_silent (acted c a s later)
    · intro env text a s' throws
      rcases List.mem_cons.1 throws with same | later
      · cases same
      · cases acted _ a s' later
  · obtain ⟨-, dead, -⟩ := exec_getException first
    cases dead

def carries : BridgeItem → Bool
  | .prim (.throw _ (.quickJS _)) _ _ => false
  | item => setsJavaException item

/-- The Java exception that the JS code of an operation left pending. -/
def carriedException (w : World) (h : BridgeHistory) : Option JavaException :=
  leftBy carries World.javaException w.javaException h

theorem chain_carried (chain : Chain bridge.meaning w h u)
    (silent : ∀ env text a s, .prim (.throw env (.quickJS text)) a s ∉ h) :
    u.javaException = carriedException w h := by
  apply path_leftBy _ chain
  intro s item member happens other
  apply javaException_alone happens
  cases item with
  | call e a s => exact other
  | prim c a s =>
    cases c with
    | throw env e =>
      cases e with
      | quickJS text => exact absurd member (silent env text a s)
      | _ => cases other
    | _ => exact other

structure ReportRun (w : World) (t : Thrown) (h : BridgeHistory) (crashed : Bool) (u : World) :
    Prop where
  first : ∃ s rest, h = .prim .getException (.value w.exception) s :: rest ∧
    ∀ item ∈ rest, takesException item = false
  asked : h.filterMap inquiry? = t.inquiries w.exception
  dies : crashed = t.report.isNone
  thrown : ∀ env text a s, .prim (.throw env (.quickJS text)) a s ∈ h → t.report = some text
  left : t.report.isSome = true → u.javaException =
    some ((carriedException w h).getD (.quickJS (t.report.getD [])))

def crashes {R : Type} : Outcome R → Bool
  | .crashed => true
  | .returned _ => false

theorem exec_throwAndFree {R : Type} {text : List Piece} {v : JSValue} {r : R} {out : Outcome R}
    (run : Exec bridge.meaning ((throwJSException env text).bind fun _ =>
      (freeValue v).bind fun _ => .ret r) w h out u) :
    out = .returned r ∧ h.filterMap inquiry? = [] ∧
      (∀ item ∈ h, takesException item = false ∧ carries item = false) ∧
      (∀ env' text' a s, .prim (.throw env' (.quickJS text')) a s ∈ h → text' = text) ∧
      u.javaException = some (w.javaException.getD (.quickJS text)) := by
  rcases exec_bind run with ⟨⟨⟩, x, throwing, after, throws, run', rfl⟩ | ⟨throws, -⟩
  · obtain ⟨-, pending⟩ := exec_throwJSException throws
    rcases exec_bind run' with ⟨⟨⟩, y, freeing, none, freed, last, rfl⟩ | ⟨freed, -⟩
    · obtain ⟨rfl, rfl, rfl⟩ := exec_ret last
      obtain ⟨-, kept, calls⟩ := exec_freeValue freed
      have asksNone : freeing.filterMap inquiry? = [] := by
        apply List.filterMap_eq_nil_iff.2
        intro item member
        obtain ⟨a, s, rfl⟩ := calls item member
        rfl
      have frees : ∀ item ∈ freeing, takesException item = false ∧ carries item = false := by
        intro item member
        obtain ⟨a, s, rfl⟩ := calls item member
        exact ⟨rfl, rfl⟩
      have throwsNone : ∀ env' text' a s,
          .prim (.throw env' (.quickJS text')) a s ∉ freeing := by
        intro env' text' a s member
        obtain ⟨_, _, same⟩ := calls _ member
        cases same
      rw [List.append_nil]
      rcases pending with ⟨held, rfl, rfl⟩ | ⟨held, rfl, rfl⟩
      · obtain ⟨e, here⟩ := Option.isSome_iff_exists.1 held
        refine ⟨rfl, by simpa [inquiry?] using asksNone, ?_, ?_, by rw [kept, here]; rfl⟩
        · intro item member
          rcases List.mem_cons.1 member with rfl | later
          · exact ⟨rfl, rfl⟩
          · exact frees item later
        · intro env' text' a s member
          rcases List.mem_cons.1 member with same | later
          · cases same
          · exact absurd later (throwsNone env' text' a s)
      · refine ⟨rfl, by simpa [inquiry?] using asksNone, ?_, ?_, by rw [kept, held]; rfl⟩
        · intro item member
          rcases List.mem_cons.1 member with rfl | later
          · exact ⟨rfl, rfl⟩
          · rcases List.mem_cons.1 later with rfl | later
            · exact ⟨rfl, rfl⟩
            · exact frees item later
        · intro env' text' a s member
          rcases List.mem_cons.1 member with same | later
          · cases same
          · rcases List.mem_cons.1 later with same | later
            · cases same
              rfl
            · exact absurd later (throwsNone env' text' a s)
    · cases (exec_freeValue freed).1
  · cases (exec_throwJSException throws).1

theorem exec_report {R : Type} {v : JSValue} {r : R} {out : Outcome R}
    (run : Exec bridge.meaning
      ((throwPendingJSException env).bind fun _ => (freeValue v).bind fun _ => .ret r) w h out u) :
    ∃ t, ReportRun w t h (crashes out) u := by
  unfold throwPendingJSException at run
  rw [Prog.bind_eq, Prog.bind_assoc] at run
  rcases exec_bind run with ⟨text, x, before, after, first, run', rfl⟩ | ⟨first, rfl⟩
  · obtain ⟨t, s, rest, begins, asked, same, once, silent⟩ := exec_getPendingErrorStr first
    have made : t.report = some text := by
      cases made : t.report with
      | none =>
        rw [made] at same
        cases same
      | some text' =>
        rw [made] at same
        cases same
        rfl
    have carried := chain_carried (exec_chain first) silent
    obtain ⟨rfl, asksNone, other, only, left⟩ := exec_throwAndFree run'
    refine ⟨t, ⟨s, rest ++ after, by rw [begins]; rfl, ?_⟩, ?_, by rw [made]; rfl, ?_, ?_⟩
    · intro item member
      rcases List.mem_append.1 member with here | later
      · exact once item here
      · exact (other item later).1
    · rw [List.filterMap_append, asksNone, List.append_nil, asked]
    · intro env' text' a s throws
      rcases List.mem_append.1 throws with here | later
      · exact absurd here (silent env' text' a s)
      · rw [made, only env' text' a s later]
    · intro _
      rw [left, carried, made]
      unfold carriedException
      rw [leftBy_append fun item later => (other item later).2]
      rfl
  · obtain ⟨t, s, rest, begins, asked, same, once, silent⟩ := exec_getPendingErrorStr first
    have none : t.report = none := by
      cases made : t.report with
      | none => rfl
      | some text =>
        rw [made] at same
        cases same
    refine ⟨t, ⟨s, rest, begins, once⟩, asked, by rw [none]; rfl, ?_, ?_⟩
    · intro env text a s throws
      exact absurd throws (silent env text a s)
    · rw [none]
      nofun

end Outcomes
section ThrownValues
variable {w u : World} {h : BridgeHistory}

theorem marked_takes : Item.marked Prim.takes (fun _ => false) = takesException := by
  funext item
  cases item with
  | call e a s => rfl
  | prim c a s => cases c <;> rfl

theorem exec_reports {op : NativeOp} (made : op.isConstructor = false) {t : ThreadId}
    {out : Outcome Answer} (run : Exec bridge.meaning (op.program t) w h out u) :
    h.any takesException = false ∨ ∃ s before during told, h = before ++ during ∧
      Chain bridge.meaning w before s ∧ before.any takesException = false ∧
      ReportRun s told during (crashes out) u := by
  rcases exec_firstAt (reportsFirst_program made t) run with
    none | ⟨q, s, before, item, rest, ⟨env, v, r, rfl⟩, rfl, chain, none, -, report⟩
  · exact Or.inl (marked_takes ▸ none)
  · obtain ⟨told, reported⟩ := exec_report report
    exact Or.inr ⟨s, before, _, told, rfl, chain, marked_takes ▸ none, reported⟩

/-- What an operation does from the moment it takes the JS exception. -/
def afterTaking (h : BridgeHistory) : BridgeHistory := h.dropWhile fun item => !takesException item

theorem afterTaking_append {before during : BridgeHistory} {s : World} {told : Thrown} {b : Bool}
    (none : before.any takesException = false) (report : ReportRun s told during b u) :
    afterTaking (before ++ during) = during := by
  obtain ⟨v, rest, rfl, -⟩ := report.first
  unfold afterTaking
  rw [List.dropWhile_append_of_pos]
  · rfl
  · simpa using none

theorem taken_value {before during : BridgeHistory} {s v : World} {told : Thrown} {b : Bool}
    {error : JSValue} (none : before.any takesException = false) (report : ReportRun s told during b u)
    (took : .prim .getException (.value error) v ∈ before ++ during) : error = s.exception := by
  rcases List.mem_append.1 took with early | late
  · have here := List.any_eq_false.1 none _ early
    exact absurd rfl here
  · obtain ⟨x, rest, rfl, once⟩ := report.first
    rcases List.mem_cons.1 late with same | later
    · cases same
      rfl
    · cases once _ later

theorem path_throws {φ : Phase} {s : World} (path : Path bridge.meaning Moves .running w h φ s)
    {env : JNIEnv} {text : List Piece} {a : Answer}
    (throws : .prim (.throw env (.quickJS text)) a u ∈ h) : h.any takesException = true := by
  induction path with
  | nil => cases throws
  | snoc path happens may ih =>
    rcases List.mem_append.1 throws with earlier | last
    · rw [List.any_append, ih earlier]
      rfl
    · cases List.mem_singleton.1 last
      cases may with
      | steady φ may => cases may
      | throw begins =>
        have shows : List.any _ takesException = true := path_shows path
        rw [List.any_append, shows]
        rfl

/-- The operation comes to its end with a QuickJSException. -/
def EndsReported (out : Outcome Answer) (u : World) : Prop :=
  (∃ a, out = .returned a) ∧ ∃ text, u.javaException = some (.quickJS text)

theorem report_made {during : BridgeHistory} {s : World} {told : Thrown} {a : Answer}
    (report : ReportRun s told during (crashes (.returned a)) u) : told.report.isSome = true := by
  have dies := report.dies
  cases written : told.report with
  | none =>
    rw [written] at dies
    cases dies
  | some text => rfl

theorem report_left {before during : BridgeHistory} {s : World} {told : Thrown} {a : Answer}
    {φ : Phase} {v : World} (path : Path bridge.meaning Moves .running w (before ++ during) φ v)
    (chain : Chain bridge.meaning w before s) (none : before.any takesException = false)
    (report : ReportRun s told during (crashes (.returned a)) u) :
    u.javaException = some ((carriedException w (before ++ during)).getD
      (.quickJS (told.report.getD []))) := by
  obtain ⟨ψ, x, early⟩ := path_prefix path
  have silent : ∀ env text b y, .prim (.throw env (.quickJS text)) b y ∉ before := by
    intro env text b y throws
    cases none.symm.trans (path_throws early throws)
  have same : carriedException w (before ++ during) = carriedException s during := by
    unfold carriedException leftBy
    rw [List.foldl_append]
    have carried := chain_carried chain silent
    unfold carriedException leftBy at carried
    rw [carried]
  rw [same]
  exact report.left (report_made report)

/-- A value that an operation takes to report is reported exactly if the value itself, or the
    message and the stack of an Error, can be converted to text, and no Java exception of
    another class is already on its way. -/
theorem thrown_reported_iff {globalObj : Addr} {jvm : List UInt8 → JavaString}
    {labels : List BridgeLabel} {c : BridgeConfig}
    (ran : bridge.run labels (initial globalObj jvm) = some c) {op : NativeOp}
    (made : op.isConstructor = false) {t : ThreadId} {trace : BridgeHistory}
    {out : Outcome Answer} {u : World}
    (run : Exec bridge.meaning (op.program t) c.state trace out u) {error : JSValue} {v : World}
    (took : .prim .getException (.value error) v ∈ trace) {thrown : Thrown}
    (answers : (afterTaking trace).filterMap inquiry? = thrown.inquiries error) :
    EndsReported out u ↔ thrown.report.isSome = true ∧
      ∀ e, carriedException c.state trace = some e → ∃ text, e = .quickJS text := by
  rcases exec_reports made run with none | ⟨s, before, during, told, rfl, chain, none, report⟩
  · exact absurd rfl (List.any_eq_false.1 none _ took)
  · have same := taken_value none report took
    subst same
    rw [afterTaking_append none report, report.asked] at answers
    have texts := report_of_inquiries answers
    rw [← texts]
    cases out with
    | crashed =>
      have dead : told.report.isNone = true := report.dies.symm
      constructor
      · rintro ⟨⟨a, impossible⟩, -⟩
        cases impossible
      · rintro ⟨made, -⟩
        rw [Option.isNone_iff_eq_none.1 dead] at made
        cases made
    | returned a =>
      have made' := report_made report
      obtain ⟨φ, -, path, -⟩ := exec_course made (reached_rejections ran) run
      have left := report_left path chain none report
      constructor
      · rintro ⟨-, text, pending⟩
        refine ⟨made', fun e carried => ⟨text, ?_⟩⟩
        rw [carried, pending] at left
        exact (Option.some.inj left).symm
      · rintro ⟨-, only⟩
        refine ⟨⟨a, rfl⟩, ?_⟩
        cases carried : carriedException c.state (before ++ during) with
        | none =>
          rw [carried] at left
          exact ⟨_, left⟩
        | some e =>
          obtain ⟨text, rfl⟩ := only e carried
          rw [carried] at left
          exact ⟨text, left⟩

/-- A getter throws an Error whose message is a number and that has no stack. -/
theorem getter_error_reported : ∃ (c : BridgeConfig) (trace : BridgeHistory) (a : Answer)
    (u v : World), bridge.run (entersOnGlobal fun o => .getProperty (some o) (some []))
      (initial 1 fun _ => []) = some c ∧
    Exec bridge.meaning ((NativeOp.getProperty 1 (some [])).program 0) c.state trace
      (.returned a) u ∧
    .prim .getException (.value (.object 3)) v ∈ trace ∧
    (EndsReported (.returned a) u ↔
      (Thrown.report ⟨true, none, .int 5, some [0x35], .undefined, none⟩).isSome = true ∧
      ∀ e, carriedException c.state trace = some e → ∃ text, e = .quickJS text) := by
  have body : ∃ c, bridge.run (entersOnGlobal fun o => .getProperty (some o) (some []))
      (initial 1 fun _ => []) = some c ∧
      Can bridge.meaning ((NativeOp.getProperty 1 (some [])).program 0) [] c.state
        fun _ trace _ => (∃ v, .prim .getException (.value (.object 3)) v ∈ trace) ∧
          (afterTaking trace).filterMap inquiry? =
            Thrown.inquiries ⟨true, none, .int 5, some [0x35], .undefined, none⟩ (.object 3) := by
    refine ⟨_, rfl, ?_⟩
    refine can_prim rfl ?_
    refine can_enter (a := .value .exception) ⟨_, _, [.event (.engine (.alloc 3 (some .error))),
      .event (.engine (.throwValue (.object 3)))], rfl, rfl, rfl⟩ ?_
    -- the exception is taken, and no handler found
    refine can_prim rfl (can_prim rfl (can_prim rfl ?_))
    refine can_enter (a := .value .null) ⟨_, _, [], rfl, rfl, rfl⟩ ?_
    refine can_enter (a := .value .null) ⟨_, _, [], rfl, rfl, rfl⟩ ?_
    refine can_enter (a := .value (.int 5)) ⟨_, _, [], rfl, rfl, rfl⟩ ?_
    refine can_enter (a := .text (some [0x35])) ⟨_, _, [], rfl, rfl, rfl⟩ ?_
    refine can_enter (a := .value .undefined) ⟨_, _, [], rfl, rfl, rfl⟩ ?_
    refine can_enter (a := .unit) ⟨_, _, [], rfl, rfl, rfl⟩ ?_
    refine can_prim rfl (can_prim rfl ?_)
    exact can_ret ⟨⟨_, List.mem_cons_of_mem _ (List.mem_cons_of_mem _ List.mem_cons_self)⟩, rfl⟩
  obtain ⟨c, ran, a, trace, u, run, ⟨v, took⟩, answers⟩ := body
  exact ⟨c, trace, a, u, v, ran, run, took, thrown_reported_iff ran rfl run took answers⟩

/-- A getter throws a symbol, which has no text. -/
theorem thrown_symbol_crashes : ¬ ∀ (globalObj : Addr) (jvm : List UInt8 → JavaString)
    (labels : List BridgeLabel) (c : BridgeConfig) (op : NativeOp) (t : ThreadId)
    (trace : BridgeHistory) (out : Outcome Answer) (u v : World) (error : JSValue),
    bridge.run labels (initial globalObj jvm) = some c → op.isConstructor = false →
    c.stack = [.caller (.native t)] → Exec bridge.meaning (op.program t) c.state trace out u →
    .prim .getException (.value error) v ∈ trace → EndsReported out u := by
  intro complete
  have body : ∃ c, bridge.run (entersOnGlobal fun o => .getProperty (some o) (some []))
      (initial 1 fun _ => []) = some c ∧ c.stack = [.caller (.native 0)] ∧
      CanDie bridge.meaning ((NativeOp.getProperty 1 (some [])).program 0) [] c.state
        fun trace _ => ∃ v, .prim .getException (.value (.symbol 3)) v ∈ trace := by
    refine ⟨_, rfl, rfl, ?_⟩
    refine canDie_prim rfl ?_
    refine canDie_enter (a := .value .exception) ⟨_, _, [.event (.engine (.alloc 3 none)),
      .event (.engine (.throwValue (.symbol 3)))], rfl, rfl, rfl⟩ ?_
    refine canDie_prim rfl (canDie_prim rfl ?_)
    refine canDie_enter (a := .text none) ⟨_, _, [], rfl, rfl, rfl⟩ ?_
    exact canDie_crash
      ⟨_, List.mem_cons_of_mem _ (List.mem_cons_of_mem _ List.mem_cons_self)⟩
  obtain ⟨c, ran, outermost, trace, u, run, v, took⟩ := body
  obtain ⟨⟨a, impossible⟩, -⟩ := complete 1 _ _ c _ 0 trace _ u v _ ran rfl outermost run took
  cases impossible

end ThrownValues
end QuickJSBridge
