import QuickJSBridge.StoreInvariant

/- Every operation of the wrapper keeps the store, from the error reports up to the native
   methods and the callbacks, for any depth of operations below it. -/
namespace QuickJSBridge
open HostProgram ReentrantMachine

section Reporting
variable {below ρ : Addr → Nat} {w w' : World} {v : JSValue} {env : JNIEnv}

theorem secure_findOnError {Q : JSValue → World → Prop} {global : JSValue}
    (kept : Kept (below + ρ) w) (next : ∀ v w', Kept (below + ρ + owned v) w' → Q v w') :
    Secure below Q (findOnError global) w := by
  refine Bridge.safe_bind (secure_enterValue (kept_plain rfl kept) fun onerror w₁ kept₁ => ?_)
  split
  · exact secure_enterValue (kept_plain rfl (drop_owned kept₁)) next
  · exact next onerror w₁ kept₁

theorem secure_tryToTriggerOnError {Q : Unit → World → Prop} {error : JSValue}
    (kept : Kept (below + ρ) w) (next : ∀ w', Kept (below + ρ) w' → Q () w') :
    Secure below Q (tryToTriggerOnError error) w := by
  refine Bridge.safe_bind (secure_getGlobalObject kept fun w₁ kept₁ => ?_)
  rw [add_assoc] at kept₁
  refine Bridge.safe_bind (secure_findOnError kept₁ fun onerror w₂ kept₂ => ?_)
  split
  · refine next w₂ (kept_weaken (fun p => ?_) kept₂)
    simp only [Pi.add_apply]
    omega
  · rw [add_assoc below] at kept₂
    refine Bridge.safe_bind (secure_enterValue (kept_plain rfl kept₂) fun ret w₃ kept₃ => ?_)
    have called := drop_owned kept₃
    rw [← add_assoc] at called
    refine Bridge.safe_bind (secure_freeValue called fun w₄ kept₄ => ?_)
    rw [← add_assoc, ← owned_object] at kept₄
    exact secure_freeValue kept₄ next

theorem secure_appendText {Q : List Piece → World → Prop} (kept : Kept (below + ρ) w)
    (next : ∀ text w', Kept (below + ρ) w' → Q text w') : Secure below Q (appendText v) w := by
  refine Bridge.safe_bind (secure_enterText (kept_plain rfl kept) fun text w₁ kept₁ => ?_)
  cases text with
  | none => trivial
  | some bytes => exact next _ w₁ kept₁

theorem secure_appendStack {Q : List Piece → World → Prop} (kept : Kept (below + ρ) w)
    (next : ∀ text w', Kept (below + ρ) w' → Q text w') : Secure below Q (appendStack v) w := by
  unfold appendStack
  split
  · exact next _ w kept
  · exact Bridge.safe_bind (secure_appendText kept fun text w₁ kept₁ => next _ w₁ kept₁)

theorem secure_getJSErrorStr {Q : List Piece → World → Prop} {error : JSValue}
    (kept : Kept (below + ρ) w) (next : ∀ text w', Kept (below + ρ) w' → Q text w') :
    Secure below Q (getJSErrorStr error) w := by
  refine Bridge.safe_bind (secure_ask rfl kept fun isError w₁ kept₁ => ?_)
  split
  · refine Bridge.safe_bind (secure_tryToTriggerOnError kept₁ fun w₂ kept₂ => ?_)
    refine Bridge.safe_bind (secure_enterValue (kept_plain rfl kept₂) fun message w₃ kept₃ => ?_)
    rw [add_assoc] at kept₃
    refine Bridge.safe_bind (secure_appendText kept₃ fun text w₄ kept₄ => ?_)
    rw [← add_assoc] at kept₄
    refine Bridge.safe_bind (secure_freeValue kept₄ fun w₅ kept₅ => ?_)
    refine Bridge.safe_bind (secure_enterValue (kept_plain rfl kept₅) fun val w₆ kept₆ => ?_)
    rw [add_assoc] at kept₆
    refine Bridge.safe_bind (secure_appendStack kept₆ fun stack w₇ kept₇ => ?_)
    rw [← add_assoc] at kept₇
    exact Bridge.safe_bind (secure_freeValue kept₇ fun w₈ kept₈ => next _ w₈ kept₈)
  · exact secure_appendText kept₁ next

theorem secure_getPendingErrorStr {Q : List Piece → World → Prop} (kept : Kept (below + ρ) w)
    (next : ∀ text w', Kept (below + ρ) w' → Q text w') :
    Secure below Q getPendingErrorStr w := by
  refine Bridge.safe_bind (secure_getException kept fun error w₁ kept₁ => ?_)
  rw [add_assoc] at kept₁
  refine Bridge.safe_bind (secure_getJSErrorStr kept₁ fun text w₂ kept₂ => ?_)
  rw [← add_assoc] at kept₂
  exact Bridge.safe_bind (secure_freeValue kept₂ fun w₃ kept₃ => next text w₃ kept₃)

theorem secure_throwJSException {Q : Unit → World → Prop} {message : List Piece}
    (kept : Kept (below + ρ) w) (next : ∀ w', Kept (below + ρ) w' → Q () w') :
    Secure below Q (throwJSException env message) w := by
  refine Bridge.safe_bind (secure_ask rfl kept fun pending w₁ kept₁ => ?_)
  split
  · exact next w₁ kept₁
  · exact secure_act rfl kept₁ next

theorem secure_throwPending {Q : Unit → World → Prop} (kept : Kept (below + ρ) w)
    (next : ∀ w', Kept (below + ρ) w' → Q () w') :
    Secure below Q (throwPendingJSException env) w :=
  Bridge.safe_bind (secure_getPendingErrorStr kept fun _ _ kept₁ =>
    secure_throwJSException kept₁ next)

theorem secure_rejectionsText {Q : List Piece → World → Prop} {fuel : Nat} {error : List Piece}
    (kept : Kept (below + ρ) w) (next : ∀ w', Kept (below + ρ) w' → Q error w') :
    Secure below Q (rejectionsText fuel error) w := by
  cases fuel with
  | zero => trivial
  | succ fuel =>
    refine Bridge.safe_bind ?_
    intro a w' acts
    cases acts
    refine ⟨kept_live kept, ?_⟩
    rw [kept.queue]
    exact next w kept

theorem secure_throwIfUnhandledRejections {Q : Bool → World → Prop} {fuel : Nat}
    (kept : Kept (below + ρ) w) (next : ∀ w', Kept (below + ρ) w' → Q false w') :
    Secure below Q (throwIfUnhandledRejections fuel) w :=
  Bridge.safe_bind (secure_rejectionsText kept fun w₁ kept₁ => next w₁ kept₁)

theorem secure_executePendingJob {Q : Int32 → World → Prop} (kept : Kept (below + ρ) w)
    (next : ∀ n w', Kept (below + ρ) w' → Q n w') : Secure below Q executePendingJob w := by
  refine Bridge.safe_bind (secure_ask rfl kept fun empty w₁ kept₁ => ?_)
  split
  · exact next _ w₁ kept₁
  · refine Bridge.safe_bind (secure_act rfl kept₁ fun w₂ kept₂ => ?_)
    refine Bridge.safe_bind (secure_enterValue (kept_plain rfl kept₂) fun res w₃ kept₃ => ?_)
    exact Bridge.safe_bind (secure_freeValue kept₃ fun w₄ kept₄ => next _ w₄ kept₄)

theorem secure_pendingJobRounds {Q : Bool → World → Prop} {fuel : Nat}
    (kept : Kept (below + ρ) w) (next : ∀ b w', Kept (below + ρ) w' → Q b w') :
    Secure below Q (pendingJobRounds env fuel) w := by
  induction fuel generalizing w with
  | zero => trivial
  | succ fuel ih =>
    refine Bridge.safe_bind (secure_executePendingJob kept fun err w₁ kept₁ => ?_)
    split
    · exact ih kept₁
    · split
      · refine Bridge.safe_bind (secure_getPendingErrorStr kept₁ fun text w₂ kept₂ => ?_)
        exact Bridge.safe_bind (secure_throwJSException kept₂ fun w₃ kept₃ => next _ w₃ kept₃)
      · exact next _ w₁ kept₁

theorem secure_executePendingJobLoop {Q : Bool → World → Prop} {fuel : Nat}
    (kept : Kept (below + ρ) w) (next : ∀ b w', Kept (below + ρ) w' → Q b w') :
    Secure below Q (executePendingJobLoop env fuel) w := by
  refine Bridge.safe_bind (secure_ask rfl kept fun pending w₁ kept₁ => ?_)
  split
  · exact next _ w₁ kept₁
  · refine Bridge.safe_bind (secure_pendingJobRounds kept₁ fun success w₂ kept₂ => ?_)
    split
    · refine Bridge.safe_bind (secure_act rfl kept₂ fun w₃ kept₃ => ?_)
      exact Bridge.safe_bind (secure_throwIfUnhandledRejections kept₃ fun w₄ kept₄ =>
        next _ w₄ kept₄)
    · exact next _ w₂ kept₂

end Reporting

section Operations
variable {below : Addr → Nat} {w w' : World} {env : JNIEnv}

abbrev Leaves {R : Type} (below : Addr → Nat) (_ : R) (w : World) : Prop := Kept below w

theorem kept_nothing (kept : Kept below w) : Kept (below + 0) w := by simpa using kept

theorem kept_anything {ρ : Addr → Nat} (kept : Kept (below + ρ) w) : Kept below w :=
  kept_weaken (fun p => by simp) kept

theorem secure_when {Q : Unit → World → Prop} {p : Program Unit} {condition : Bool}
    (taken : Secure below Q p w) (skipped : Q () w) : Secure below Q (p.when condition) w := by
  cases condition with
  | true => exact taken
  | false => exact skipped

theorem secure_reported {ρ : Addr → Nat} (kept : Kept (below + ρ) w) :
    Secure below (Leaves below) (do
      throwPendingJSException env
      return (none : Option JavaObject)) w :=
  Bridge.safe_bind (secure_throwPending kept fun _ kept₁ => kept_anything kept₁)

theorem secure_dropped {ρ : Addr → Nat} {v : JSValue} (kept : Kept (below + ρ + owned v) w) :
    Secure below (Leaves below) (do
      freeValue v
      return (none : Option JavaObject)) w :=
  Bridge.safe_bind (secure_freeValue kept fun _ kept₁ => kept_anything kept₁)

theorem secure_result {ρ : Addr → Nat} {thisObj v : JSValue}
    (kept : Kept (below + ρ + owned v) w) :
    Secure below (Leaves below) (toJavaObject env thisObj v true) w :=
  secure_toJavaObject kept fun _ _ kept₁ => kept_anything kept₁

theorem secure_globalResult {ρ : Addr → Nat} {v : JSValue} (kept : Kept (below + ρ + owned v) w) :
    Secure below (Leaves below) (do
      let global ← askValue .getGlobalObject
      let jsObj ← toJavaObject env global v true
      freeValue global
      return jsObj) w := by
  rw [add_assoc] at kept
  refine Bridge.safe_bind (secure_getGlobalObject kept fun w₁ kept₁ => ?_)
  have swapped : Kept (below + (ρ + one w₁.globalObj) + owned v) w₁ := by
    refine kept_weaken (fun p => ?_) kept₁
    simp only [Pi.add_apply]
    omega
  refine Bridge.safe_bind (secure_toJavaObject swapped fun o w₂ kept₂ => ?_)
  rw [← add_assoc, ← owned_object] at kept₂
  exact Bridge.safe_bind (secure_freeValue kept₂ fun w₃ kept₃ => kept_anything kept₃)

theorem evaluate_secure {script fileName : JavaString} {fuel : Nat} (kept : Kept below w) :
    Secure below (Leaves below) (Wrapper.evaluate env script fileName fuel) w := by
  refine Bridge.safe_bind (secure_getStringUTFChars (kept_nothing kept) fun script w₁ kept₁ => ?_)
  refine Bridge.safe_bind (secure_getStringUTFChars kept₁ fun fileName w₂ kept₂ => ?_)
  refine Bridge.safe_bind (secure_enterValue (kept_plain rfl kept₂) fun result w₃ kept₃ => ?_)
  split
  · exact secure_reported (drop_owned kept₃)
  · rw [add_assoc] at kept₃
    refine Bridge.safe_bind (secure_executePendingJobLoop kept₃ fun success w₄ kept₄ => ?_)
    rw [← add_assoc] at kept₄
    split
    · exact secure_globalResult kept₄
    · exact secure_dropped kept₄

theorem evaluateModule_secure {script fileName : JavaString} {fuel : Nat} (kept : Kept below w) :
    Secure below (Leaves below) (Wrapper.evaluateModule env script fileName fuel) w := by
  refine Bridge.safe_bind (secure_getStringUTFChars (kept_nothing kept) fun script w₁ kept₁ => ?_)
  refine Bridge.safe_bind (secure_getStringUTFChars kept₁ fun fileName w₂ kept₂ => ?_)
  refine Bridge.safe_bind (secure_enterValue (kept_plain rfl kept₂) fun result w₃ kept₃ => ?_)
  split
  · exact secure_reported (drop_owned kept₃)
  · rw [add_assoc] at kept₃
    refine Bridge.safe_bind (secure_executePendingJobLoop kept₃ fun success w₄ kept₄ => ?_)
    rw [← add_assoc] at kept₄
    split
    · exact secure_globalResult kept₄
    · exact secure_dropped kept₄

/-- The global object needs no entry in `values`: the context holds it. -/
theorem getGlobalObject_secure (kept : Kept below w) :
    Secure below (Leaves below) (Wrapper.getGlobalObject env) w := by
  refine Bridge.safe_bind (secure_getGlobalObject (kept_nothing kept) fun w₁ kept₁ => ?_)
  refine Bridge.safe_bind ?_
  intro a w₂ acts
  have made : exec (.newObject env .jsObject .undefined w₁.globalObj false) w₁ = some (a, w₂) := acts
  have pending := pending_newObject kept₁ made
  have kept₂ : Kept (below + 0 + one w₁.globalObj) w₂ := by
    refine kept_of_pending pending (Or.inl ?_)
    cases acts
    rfl
  refine ⟨kept_live kept₂, ?_⟩
  rw [← owned_object] at kept₂
  exact Bridge.safe_bind (secure_freeValue kept₂ fun w₃ kept₃ => kept_anything kept₃)

theorem getProperty_secure {objValue : Nat} {name : JavaString} (kept : Kept below w) :
    Secure below (Leaves below) (Wrapper.getProperty env objValue name) w := by
  refine Bridge.safe_bind (secure_getStringUTFChars (kept_nothing kept) fun name w₁ kept₁ => ?_)
  refine Bridge.safe_bind (secure_enterValue (kept_plain rfl kept₁) fun value w₂ kept₂ => ?_)
  split
  · exact secure_reported (drop_owned kept₂)
  · exact secure_result kept₂

def ownedAll : List JSValue → Addr → Nat
  | [] => 0
  | v :: values => owned v + ownedAll values

theorem ownedAll_append (first second : List JSValue) :
    ownedAll (first ++ second) = ownedAll first + ownedAll second := by
  induction first with
  | nil => simp [ownedAll]
  | cons v first ih => simp only [List.cons_append, ownedAll, ih, add_assoc]

theorem secure_freeValues {Q : Unit → World → Prop} {ρ : Addr → Nat} {values : List JSValue}
    (kept : Kept (below + ρ + ownedAll values) w) (next : ∀ w', Kept (below + ρ) w' → Q () w') :
    Secure below Q (Wrapper.freeValues values) w := by
  induction values generalizing w with
  | nil => exact next w (by simpa [ownedAll] using kept)
  | cons v values ih =>
    have first : Kept (below + (ρ + ownedAll values) + owned v) w := by
      refine kept_weaken (fun p => ?_) kept
      simp only [ownedAll, Pi.add_apply]
      omega
    refine Bridge.safe_bind (secure_freeValue first fun w₁ kept₁ => ih ?_)
    rwa [← add_assoc] at kept₁

theorem secure_callArguments {Q : Option (List JSValue × List JSValue) → World → Prop}
    {args : List (Option JavaObject)} {arguments freeArguments : List JSValue}
    (kept : Kept (below + ownedAll freeArguments) w)
    (converted : ∀ arguments freeArguments w', Kept (below + ownedAll freeArguments) w' →
      Q (some (arguments, freeArguments)) w')
    (refused : ∀ w', Kept below w' → Q none w') :
    Secure below Q (Wrapper.callArguments env args arguments freeArguments) w := by
  induction args generalizing arguments freeArguments w with
  | nil => exact converted arguments freeArguments w kept
  | cons arg args ih =>
    refine Bridge.safe_bind (secure_ask rfl kept fun pending w₁ kept₁ => ?_)
    split
    · exact converted arguments freeArguments w₁ kept₁
    · refine Bridge.safe_bind (secure_toJSValue kept₁ fun jsArg w₂ kept₂ => ?_)
      split
      · exact refused w₂ (kept_weaken (fun p => by simp [add_assoc]) kept₂)
      · refine ih (kept_weaken (fun p => ?_) kept₂)
        cases arg with
        | none => simp [Wrapper.isFreedArgument, ownedAll_append, ownedAll,
            QuickJSBridge.converted, add_assoc]
        | some o => cases o <;> simp [Wrapper.isFreedArgument, ownedAll_append, ownedAll,
            QuickJSBridge.converted, add_assoc]

theorem callWith_secure {func : Nat} {jsObj : JSValue} {arguments freeArguments : List JSValue}
    {fuel : Nat} (kept : Kept (below + ownedAll freeArguments) w) :
    Secure below (Leaves below)
      (Wrapper.callWith env func jsObj arguments freeArguments fuel) w := by
  refine Bridge.safe_bind (secure_enterValue (kept_plain rfl kept) fun ret w₁ kept₁ => ?_)
  split
  · exact secure_reported (drop_owned kept₁)
  · have swapped : Kept (below + owned ret + ownedAll freeArguments) w₁ := by
      refine kept_weaken (fun p => ?_) kept₁
      simp only [Pi.add_apply]
      omega
    refine Bridge.safe_bind (secure_freeValues swapped fun w₂ kept₂ => ?_)
    refine Bridge.safe_bind (secure_executePendingJobLoop kept₂ fun success w₃ kept₃ => ?_)
    have kept₄ : Kept (below + 0 + owned ret) w₃ := by simpa using kept₃
    split
    · exact secure_result kept₄
    · exact secure_dropped kept₄

theorem call_secure {func thisObj : Nat} {args : List (Option JavaObject)} {fuel : Nat}
    (kept : Kept below w) : Secure below (Leaves below) (Wrapper.call env func thisObj args fuel) w := by
  refine Bridge.safe_bind (secure_callArguments (by simpa [ownedAll] using kept)
    (fun arguments freeArguments w₁ kept₁ => ?_) (fun w₁ kept₁ => ?_))
  · exact callWith_secure kept₁
  · exact kept₁

theorem jsonStringify_secure {objValue : Nat} (kept : Kept below w) :
    Secure below (Leaves below) (Wrapper.jsonStringify env objValue) w := by
  refine Bridge.safe_bind (secure_enterValue (kept_plain rfl (kept_nothing kept))
    fun obj w₁ kept₁ => ?_)
  split
  · exact secure_reported (drop_owned kept₁)
  · rw [add_assoc] at kept₁
    refine Bridge.safe_bind (secure_enterText (kept_plain rfl kept₁) fun result w₂ kept₂ => ?_)
    rw [← add_assoc] at kept₂
    refine Bridge.safe_bind (secure_freeValue kept₂ fun w₃ kept₃ => ?_)
    exact secure_newStringUTF kept₃ fun o w₄ kept₄ => kept_anything kept₄

theorem length_secure {objValue : Nat} (kept : Kept below w) :
    Secure below (Leaves below) (Wrapper.length env objValue) w := by
  refine Bridge.safe_bind (secure_enterValue (kept_plain rfl (kept_nothing kept))
    fun length w₁ kept₁ => ?_)
  split
  · exact Bridge.safe_bind (secure_throwPending (drop_owned kept₁) fun w₂ kept₂ =>
      kept_anything kept₂)
  · exact Bridge.safe_bind (secure_freeValue kept₁ fun w₂ kept₂ => kept_anything kept₂)

theorem get_secure {objValue : Nat} {index : Int32} (kept : Kept below w) :
    Secure below (Leaves below) (Wrapper.get env objValue index) w :=
  Bridge.safe_bind (secure_enterValue (kept_plain rfl (kept_nothing kept)) fun _ _ kept₁ =>
    secure_result kept₁)

theorem secure_stored {Q : JSValue → World → Prop} {o : Option JavaObject} (kept : Kept below w)
    (fresh : ∀ v w', Kept (below + owned v) w' → Q v w')
    (borrowed : ∀ p w', Kept below w' → Q (.object p) w') : Secure below Q (toJSValue env o) w := by
  by_cases handle : ∃ id cls p objPointer, o = some (.handle id cls p objPointer)
  · obtain ⟨id, cls, p, objPointer, rfl⟩ := handle
    exact Bridge.safe_bind (secure_act rfl (kept_nothing kept) fun w₁ kept₁ =>
      borrowed p w₁ (kept_anything kept₁))
  · refine secure_toJSValue (kept_nothing kept) fun v w₁ kept₁ => fresh v w₁ ?_
    have same : converted o v = owned v := by
      unfold converted
      split
      next id cls p objPointer => exact absurd ⟨id, cls, p, objPointer, rfl⟩ handle
      next => rfl
    simpa [same] using kept₁

theorem set_secure {thisObj : Nat} {value : Option JavaObject} {index : Int32}
    (kept : Kept below w) : Secure below (Leaves below) (Wrapper.set env thisObj value index) w := by
  have store : ∀ v w₂, Kept (below + 0 + owned v) w₂ →
      Secure below (Leaves below) (do
        let _ ← enterInt (.setPropertyUint32 (.object thisObj) index.toUInt32 v)) w₂ := by
    intro v w₂ kept₂
    exact Bridge.safe_bind (secure_enterInt kept₂ fun n w₃ kept₃ => kept_anything kept₃)
  refine Bridge.safe_bind (secure_stored kept (fun v w₁ kept₁ => ?_) (fun p w₁ kept₁ => ?_))
  · refine Bridge.safe_bind (secure_when (secure_dupValue kept₁ fun w₂ kept₂ => store v w₂ ?_)
      (store v w₁ (by simpa using kept₁)))
    exact kept_weaken (fun q => by simp) kept₂
  · exact Bridge.safe_bind (secure_dupValue (kept_nothing kept₁) fun w₂ kept₂ => store _ w₂ kept₂)

theorem secure_prepareProperty {Q : Unit → World → Prop} {value : Option JavaObject}
    {propName : List UInt8} {v : JSValue} (kept : Kept (below + converted value v) w)
    (next : ∀ w', Kept (below + owned v) w' → Q () w') :
    Secure below Q (Wrapper.prepareProperty propName value v) w := by
  cases value with
  | none =>
    refine secure_dupValue kept fun w₁ kept₁ => next w₁ (kept_weaken (fun p => ?_) kept₁)
    simp only [converted, Pi.add_apply]
    omega
  | some o =>
    cases o with
    | handle id cls pointer objPointer =>
      exact secure_dupValue kept fun w₁ kept₁ => next w₁ (by simpa [converted] using kept₁)
    | callFunction f =>
      exact Bridge.safe_bind (secure_enterInt (kept_plain rfl kept) fun n w₁ kept₁ => next w₁ kept₁)
    | string s => exact next w kept
    | double d => exact next w kept
    | integer n => exact next w kept
    | long n => exact next w kept
    | boolean b => exact next w kept
    | other className => exact next w kept

theorem setProperty_secure {thisObj : Nat} {name : JavaString} {value : Option JavaObject}
    (kept : Kept below w) :
    Secure below (Leaves below) (Wrapper.setProperty env thisObj name value) w := by
  refine Bridge.safe_bind (secure_getStringUTFChars (kept_nothing kept) fun name w₁ kept₁ => ?_)
  refine Bridge.safe_bind (secure_toJSValue kept₁ fun v w₂ kept₂ => ?_)
  rw [add_zero] at kept₂
  refine Bridge.safe_bind (secure_prepareProperty kept₂ fun w₃ kept₃ => ?_)
  rw [← add_zero below] at kept₃
  exact Bridge.safe_bind (secure_enterInt kept₃ fun n w₄ kept₄ => kept_anything kept₄)

theorem parseJSON_secure {json : JavaString} (kept : Kept below w) :
    Secure below (Leaves below) (Wrapper.parseJSON env json) w := by
  refine Bridge.safe_bind (secure_getStringUTFChars (kept_nothing kept) fun json w₁ kept₁ => ?_)
  refine Bridge.safe_bind (secure_enterValue (kept_plain rfl kept₁) fun obj w₂ kept₂ => ?_)
  split
  · exact secure_reported (drop_owned kept₂)
  · exact secure_result kept₂

theorem compile_secure {source fileName : JavaString} {isModule : Bool} (kept : Kept below w) :
    Secure below (Leaves below) (Wrapper.compile env source fileName isModule) w := by
  refine Bridge.safe_bind (secure_getStringUTFChars (kept_nothing kept) fun source w₁ kept₁ => ?_)
  refine Bridge.safe_bind (secure_getStringUTFChars kept₁ fun fileName w₂ kept₂ => ?_)
  refine Bridge.safe_bind (secure_enterValue (kept_plain rfl kept₂) fun compiled w₃ kept₃ => ?_)
  split
  · exact Bridge.safe_bind (secure_throwPending (drop_owned kept₃) fun w₄ kept₄ =>
      kept_anything kept₄)
  · rw [add_assoc] at kept₃
    refine Bridge.safe_bind (secure_enterText (kept_plain rfl kept₃) fun buffer w₄ kept₄ => ?_)
    have last : ∀ w₅, Kept (below + (0 + owned compiled)) w₅ →
        Secure below (Leaves below) (do
          freeValue compiled
          return buffer.filter (!·.isEmpty)) w₅ := by
      intro w₅ kept₅
      rw [← add_assoc] at kept₅
      exact Bridge.safe_bind (secure_freeValue kept₅ fun w₆ kept₆ => kept_anything kept₆)
    exact Bridge.safe_bind (secure_when (secure_throwPending kept₄ fun w₅ kept₅ => last w₅ kept₅)
      (last w₄ kept₄))

theorem execute_secure {byteCode : List UInt8} {fuel : Nat} (kept : Kept below w) :
    Secure below (Leaves below) (Wrapper.execute env byteCode fuel) w := by
  refine Bridge.safe_bind (secure_enterValue (kept_plain rfl (kept_nothing kept))
    fun obj w₁ kept₁ => ?_)
  split
  · exact secure_reported (drop_owned kept₁)
  · rw [add_assoc] at kept₁
    refine Bridge.safe_bind (secure_enterInt (kept_plain rfl kept₁) fun failed w₂ kept₂ => ?_)
    split
    · exact kept_anything kept₂
    · rw [← add_assoc] at kept₂
      refine Bridge.safe_bind (secure_enterValue kept₂ fun val w₃ kept₃ => ?_)
      rw [add_assoc] at kept₃
      refine Bridge.safe_bind (secure_executePendingJobLoop kept₃ fun success w₄ kept₄ => ?_)
      split
      · split
        · exact secure_reported kept₄
        · rw [← add_assoc] at kept₄
          exact secure_result kept₄
      · rw [← add_assoc] at kept₄
        exact secure_dropped kept₄

theorem secure_jsStdDumpError {ρ : Addr → Nat} {Q : Unit → World → Prop}
    (kept : Kept (below + ρ) w) (next : ∀ w', Kept (below + ρ) w' → Q () w') :
    Secure below Q Wrapper.jsStdDumpError w := by
  refine Bridge.safe_bind (secure_getException kept fun error w₁ kept₁ => ?_)
  rw [add_assoc] at kept₁
  refine Bridge.safe_bind (secure_ask rfl kept₁ fun isError w₂ kept₂ => ?_)
  refine Bridge.safe_bind (Bridge.safe_bind (secure_enterText (kept_plain rfl kept₂)
    fun text w₃ kept₃ => ?_))
  have last : ∀ w₄, Kept (below + (ρ + owned error)) w₄ →
      Secure below Q (freeValue error) w₄ := by
    intro w₄ kept₄
    rw [← add_assoc] at kept₄
    exact secure_freeValue kept₄ next
  refine Bridge.safe_bind (secure_when ?_ (last w₃ kept₃))
  refine Bridge.safe_bind (secure_enterValue (kept_plain rfl kept₃) fun val w₄ kept₄ => ?_)
  rw [add_assoc] at kept₄
  have done : ∀ w₅, Kept (below + (ρ + owned error + owned val)) w₅ →
      Secure below (fun _ t => Secure below Q (freeValue error) t) (freeValue val) w₅ := by
    intro w₅ kept₅
    rw [← add_assoc] at kept₅
    exact secure_freeValue kept₅ fun w₆ kept₆ => last w₆ kept₆
  refine Bridge.safe_bind (secure_when ?_ (done w₄ kept₄))
  exact Bridge.safe_bind (secure_enterText (kept_plain rfl kept₄) fun text w₅ kept₅ =>
    done w₅ kept₅)

theorem create_secure {t : ThreadId} (kept : Kept below w) :
    Secure below (Leaves below) (Wrapper.create t) w := by
  refine Bridge.safe_bind (secure_act rfl (kept_nothing kept) fun w₁ kept₁ => ?_)
  refine Bridge.safe_bind (secure_act rfl kept₁ fun w₂ kept₂ => ?_)
  refine Bridge.safe_bind (secure_enter (kept_plain rfl kept₂) fun w₃ kept₃ => ?_)
  have last : ∀ w₄, Kept (below + 0) w₄ → Secure below (Leaves below) (do
      act (.setRuntimeOpaque .wrapper)
      act .contextCreated) w₄ := by
    intro w₄ kept₄
    refine Bridge.safe_bind (secure_act rfl kept₄ fun w₅ kept₅ => ?_)
    exact secure_act rfl kept₅ fun w₆ kept₆ => kept_anything kept₆
  have dumped : ∀ v w₄, Kept (below + 0 + owned v) w₄ →
      Secure below (fun _ t => Secure below (Leaves below) (do
        act (.setRuntimeOpaque .wrapper)
        act .contextCreated) t)
        (do
          Wrapper.jsStdDumpError.when v.isException
          freeValue v) w₄ := by
    intro v w₄ kept₄
    have free : ∀ w₅, Kept (below + (0 + owned v)) w₅ →
        Secure below (fun _ t => Secure below (Leaves below) (do
          act (.setRuntimeOpaque .wrapper)
          act .contextCreated) t) (freeValue v) w₅ := by
      intro w₅ kept₅
      rw [← add_assoc] at kept₅
      exact secure_freeValue kept₅ fun w₆ kept₆ => last w₆ kept₆
    rw [add_assoc] at kept₄
    exact Bridge.safe_bind (secure_when (secure_jsStdDumpError kept₄ free) (free w₄ kept₄))
  refine Bridge.safe_bind (Bridge.safe_bind (secure_enterValue (kept_plain rfl kept₃)
    fun compiled w₄ kept₄ => ?_))
  refine Bridge.safe_bind ?_
  unfold Wrapper.evalCompiled
  split
  · exact dumped compiled w₄ kept₄
  · rw [add_assoc] at kept₄
    refine Bridge.safe_bind (secure_enter (kept_plain rfl kept₄) fun w₅ kept₅ => ?_)
    rw [← add_assoc] at kept₅
    exact secure_enterValue kept₅ fun val w₆ kept₆ => dumped val w₆ kept₆

def unaliasedAt (p : Nat) (w : World) : Bool :=
  p = w.globalObj || w.handles.all fun h => h.borrowed || h.freed || h.pointer ≠ p

theorem kept_erase {held : Addr → Nat} {p : Nat} (kept : Kept held w)
    (unaliased : unaliasedAt p w = true) :
    Kept (held + if w.values p then one p else 0)
      { w with values := Function.update w.values p false } where
  covered q := by
    have enough := kept.covered q
    change w.engineRefs q + owned w.exception q +
      (if Function.update w.values p false q = true then 1 else 0) +
      (held + if w.values p then one p else 0) q ≤ w.refs q
    unfold World.valuesRefs at enough
    by_cases same : q = p
    · subst same
      cases present : w.values q <;> simp [present] at enough ⊢ <;> omega
    · cases present : w.values p <;> simp [same, one_other same] at enough ⊢ <;> omega
  global := kept.global
  queue := kept.queue
  handles h member mine unfreed := by
    obtain ⟨reason, denotes⟩ := kept.handles h member mine unfreed
    refine ⟨?_, denotes⟩
    by_cases same : h.pointer = p
    · left
      simp only [unaliasedAt, Bool.or_eq_true, decide_eq_true_eq, List.all_eq_true] at unaliased
      rcases unaliased with atGlobal | alone
      · exact same.trans atGlobal
      · have other := alone h member
        simp [mine, unfreed, same] at other
    · exact reason.imp id fun present => by simpa [same] using present

theorem freeValue_secure {p : Nat} (kept : Kept below w) (unaliased : unaliasedAt p w = true) :
    Secure below (Leaves below) (Wrapper.freeValue p) w := by
  refine Bridge.safe_bind ?_
  intro a w' acts
  cases acts
  have erased := kept_erase kept unaliased
  refine ⟨kept_live erased, ?_⟩
  change Secure below (Leaves below)
    (if w.values p = true then freeValue (.object p) else .ret ()) _
  split
  next present =>
    rw [if_pos present, ← owned_object, ← add_zero below] at erased
    exact secure_freeValue erased fun w₂ kept₂ => kept_anything kept₂
  next absent =>
    rw [if_neg absent] at erased
    exact kept_anything erased

end Operations

section Callbacks
variable {below ρ : Addr → Nat} {w w' : World}

theorem secure_callbackArguments {Q : List (Option JavaObject) → World → Prop} {thisVal : JSValue}
    {argv : List JSValue} (kept : Kept (below + ρ) w)
    (next : ∀ args w', Kept (below + ρ) w' → Q args w') :
    Secure below Q (Wrapper.callbackArguments thisVal argv) w := by
  induction argv generalizing Q w with
  | nil => exact next _ w kept
  | cons v argv ih =>
    refine Bridge.safe_bind (secure_toJavaArgument kept fun arg w₁ kept₁ => ?_)
    exact Bridge.safe_bind (ih kept₁ fun args w₂ kept₂ => next _ w₂ kept₂)

theorem secure_callFunctionBack {Q : Option JavaObject → World → Prop} {id : Int32}
    {args : List (Option JavaObject)} (kept : Kept (below + ρ) w)
    (next : ∀ o w', Kept (below + ρ) w' → Q o w') :
    Secure below Q (Wrapper.callFunctionBack id args) w := by
  refine Bridge.safe_bind (secure_askJava rfl kept fun found w₁ kept₁ => ?_)
  split
  next f =>
    refine Bridge.safe_bind ⟨ρ, fun w₂ leaves => ?_, fun a w₂ w₃ kept₂ answers => ?_⟩
    · cases leaves
      exact kept₁
    · have kept₃ := deliver_java_kept kept₂ answers
      refine ⟨kept_live kept₃, ?_⟩
      -- only a callback that was returned is still to be registered
      beta_reduce
      cases a.toJava with
      | none => exact next none w₃ kept₃
      | some o =>
        cases o with
        | callFunction g =>
          exact Bridge.safe_bind (secure_act rfl kept₃ fun w₄ kept₄ => next _ w₄ kept₄)
        | _ => exact next _ w₃ kept₃
  next => exact Bridge.safe_bind (secure_act rfl kept₁ fun w₂ kept₂ => next _ w₂ kept₂)

theorem jsFnCallback_secure {func thisObj : JSValue} {argv : List JSValue} (kept : Kept below w) :
    Secure below (fun v t => Kept (below + owned v) t) (jsFnCallback func thisObj argv) w := by
  refine Bridge.safe_bind (secure_askInt rfl (kept_nothing kept) fun id w₁ kept₁ => ?_)
  refine Bridge.safe_bind (secure_act rfl kept₁ fun w₂ kept₂ => ?_)
  refine Bridge.safe_bind (secure_callbackArguments kept₂ fun args w₃ kept₃ => ?_)
  refine Bridge.safe_bind (secure_callFunctionBack kept₃ fun result w₄ kept₄ => ?_)
  have kept₅ : Kept below w₄ := kept_anything kept₄
  by_cases handle : ∃ id cls p objPointer, result = some (.handle id cls p objPointer)
  · obtain ⟨id, cls, p, objPointer, rfl⟩ := handle
    refine Bridge.safe_bind (Bridge.safe_bind (secure_act rfl kept₄ fun w₅ kept₅ => ?_))
    refine Bridge.safe_bind ?_
    refine secure_dupValue kept₅ fun w₆ kept₆ => ?_
    have owns : Kept (below + owned (.object p)) w₆ := by simpa using kept₆
    exact owns
  · refine Bridge.safe_bind (secure_toJSValue kept₄ fun v w₅ kept₅ => ?_)
    have same : converted result v = owned v := by
      unfold converted
      split
      next id cls p objPointer => exact absurd ⟨id, cls, p, objPointer, rfl⟩ handle
      next => rfl
    rw [same] at kept₅
    have owns : Kept (below + owned v) w₅ := by simpa using kept₅
    refine Bridge.safe_bind (secure_when (secure_dupValue kept₅ fun w₆ kept₆ => ?_) owns)
    have more : Kept (below + owned v) w₆ := kept_weaken (fun q => by simp) kept₆
    exact more

end Callbacks
end QuickJSBridge
