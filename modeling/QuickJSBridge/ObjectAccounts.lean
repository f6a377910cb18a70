import QuickJSBridge.CallbackOutcomes

/- The references of the wrapper to JS objects. The engine hands out one with every result;
   `values` keeps one for each address, and no operation keeps another. -/
namespace QuickJSBridge
open HostProgram ReentrantMachine

section Ledger

def objectAt (p : Addr) (v : Option JSValue) : Int := if v = some (.object p) then 1 else 0

/-- The references to an object a history hands to the wrapper, less those it takes back. -/
def objectReferences (h : BridgeHistory) (p : Addr) : Int :=
  (h.map fun item => objectAt p (Item.given item) - objectAt p (Item.taken item)).sum

/-- What `values` keeps of them. -/
def World.keyAt (w : World) (p : Addr) : Int := if w.values p then 1 else 0

/-- Making the text of an error leaves no reference behind. -/
def ReportsNeutral (h : BridgeHistory) : Prop :=
  ∀ before text after error x message y, h = before ++ text ++ after →
    Exec bridge.meaning (getJSErrorStr error) x text (.returned message) y →
    ∀ p, objectReferences text p = 0

def ReadsScripts (h : BridgeHistory) : Prop :=
  ∀ bytes v s, .call (.engine (.readObject bytes)) (.value v) s ∈ h → v.isObject = false

theorem objectReferences_append (h later : BridgeHistory) (p : Addr) :
    objectReferences (h ++ later) p = objectReferences h p + objectReferences later p := by
  unfold objectReferences
  rw [List.map_append, List.sum_append]

@[simp] theorem objectAt_none (p : Addr) : objectAt p none = 0 := by
  simp only [objectAt, reduceCtorEq, if_false]

@[simp] theorem objectReferences_cons (item : BridgeItem) (h : BridgeHistory) (p : Addr) :
    objectReferences (item :: h) p =
      objectAt p (Item.given item) - objectAt p (Item.taken item) + objectReferences h p :=
  List.sum_cons

theorem objectReferences_silent {item : BridgeItem} {h : BridgeHistory} {p : Addr}
    (given : Item.given item = none) (taken : Item.taken item = none) :
    objectReferences (item :: h) p = objectReferences h p := by
  rw [objectReferences_cons, given, taken]
  exact Int.zero_add _

@[simp] theorem objectReferences_nil (p : Addr) : objectReferences [] p = 0 := rfl

theorem objectAt_other {v : JSValue} (other : v.isObject = false) (p : Addr) :
    objectAt p (some v) = 0 := by
  cases v <;> first | rfl | cases other

theorem reportsNeutral_append {h later : BridgeHistory} (neutral : ReportsNeutral (h ++ later)) :
    ReportsNeutral h ∧ ReportsNeutral later := by
  constructor
  · rintro before text after error x message y rfl
    exact neutral before text (after ++ later) error x message y (by simp)
  · rintro before text after error x message y rfl
    exact neutral (h ++ before) text after error x message y (by simp)

theorem readsScripts_append {h later : BridgeHistory} (scripts : ReadsScripts (h ++ later)) :
    ReadsScripts h ∧ ReadsScripts later := by
  constructor
  · intro bytes v s here
    exact scripts bytes v s (List.mem_append_left _ here)
  · intro bytes v s there
    exact scripts bytes v s (List.mem_append_right _ there)

end Ledger

section Flatness
variable {w w' : World} {p : Addr} {v : JSValue}

structure Flat (w : World) : Prop where
  callbacks : ∀ p, w.registry.callbackAt p = none
  queue : w.unhandledRejections = []

def Change.stores : Change → Bool
  | .store _ _ => true
  | _ => false

theorem callbacks_apply {r : Registry} {ch : Change} (other : ch.stores = false)
    (clear : ∀ p, r.callbackAt p = none) (p : Addr) : (r.apply ch).callbackAt p = none := by
  cases ch with
  | store q object => cases other
  | destroy q =>
    change (r.destroy q).callbackAt p = none
    rw [Registry.callbackAt_destroy]
    by_cases here : p = q
    · subst here
      simp
    · rw [Function.update_of_ne here, clear]
  | _ => exact clear p

theorem stores_releaseAt (w : World) (p : Addr) : (releaseAt w p).stores = false := by
  unfold releaseAt
  split <;> rfl

theorem stores_releaseOf (w : World) (v : JSValue) : (releaseOf w v).stores = false := by
  unfold releaseOf
  split
  · rfl
  · exact stores_releaseAt w _

theorem stores_departChange (w : World) (e : ForeignCall) : (departChange w e).stores = false := by
  unfold departChange
  split
  · exact stores_releaseOf w _
  · rfl

theorem stores_eventChange (w : World) (ev : Event) : (eventChange w ev).stores = false := by
  cases ev with
  | engine e =>
    cases e with
    | alloc p cls =>
      change (if cls.isSome then Change.alloc p else .keep).stores = false
      split <;> rfl
    | drop p => exact stores_releaseAt w p
    | throwValue v => exact stores_releaseOf w w.exception
    | _ => rfl
  | javaStep t =>
    simp only [eventChange]
    split <;> rfl
  | _ => rfl

structure Sideline where
  values : Nat → Bool
  monitor : Option (ThreadId × Nat)
  jniEnv : ThreadId

def World.sideline (w : World) : Sideline := ⟨w.values, w.monitor, w.jniEnv⟩

theorem sideline_toHeap (step : w.toHeap p = some w') : w'.sideline = w.sideline := by
  obtain ⟨c, -, rfl⟩ := Option.map_eq_some_iff.1 step
  rfl

theorem sideline_toNative (step : w.toNative p = some w') : w'.sideline = w.sideline := by
  obtain ⟨c, -, given⟩ := Option.bind_eq_some_iff.1 step
  cases of_ite_some given
  rfl

theorem sideline_release (step : w.release p = some w') : w'.sideline = w.sideline := by
  obtain ⟨c, -, rfl⟩ := Option.map_eq_some_iff.1 step
  split
  · unfold World.jsFuncCallbackFinalizer
    split
    · rfl
    · dsimp only
      split <;> rfl
  · rfl

theorem sideline_onValue {step : World → Addr → Option World}
    (keeps : ∀ p w', step w p = some w' → w'.sideline = w.sideline)
    (taken : w.onValue step v = some w') : w'.sideline = w.sideline := by
  unfold World.onValue at taken
  split at taken
  · cases taken
    rfl
  · exact keeps _ _ taken

theorem sideline_engineEvent {e : EngineEvent} (acts : engineEvent w e = some w') :
    w'.sideline = w.sideline := by
  cases e with
  | alloc p cls =>
    replace acts : w.alloc p cls = some w' := acts
    unfold World.alloc at acts
    split at acts
    · cases acts
    · cases acts
      rfl
  | dup p =>
    obtain ⟨c, -, rfl⟩ := Option.map_eq_some_iff.1 acts
    rfl
  | drop p =>
    obtain ⟨u, given, dropped⟩ := Option.bind_eq_some_iff.1 acts
    exact (sideline_release dropped).trans (sideline_toNative given)
  | revokeProxy p =>
    obtain ⟨c, -, revoked⟩ := Option.bind_eq_some_iff.1 acts
    cases of_ite_some revoked
    rfl
  | throwValue v =>
    obtain ⟨u, given, dropped⟩ := Option.bind_eq_some_iff.1 acts
    have freed := sideline_onValue (fun _ _ => sideline_release) dropped
    have moved := sideline_onValue (fun _ _ => sideline_toNative) given
    exact freed.trans moved
  | catchException =>
    have moved := sideline_onValue (fun _ _ => sideline_toHeap) acts
    exact moved
  | _ => cases acts; rfl

theorem sideline_event {ev : Event} {ctx : Option ForeignCall} (acts : event ev ctx w = some w') :
    w'.sideline = w.sideline := by
  cases ev with
  | engine e =>
    cases ctx with
    | none => cases acts
    | some call =>
      cases call with
      | engine call => exact sideline_engineEvent (of_ite_some acts)
      | java f args => cases acts
  | spawn t call =>
    cases of_ite_some acts
    rfl
  | javaStep t =>
    simp only [event] at acts
    replace acts := of_ite_some acts
    split at acts
    next c next frames _ =>
      cases acts
      cases c <;> rfl
    next => cases acts
  | retire t =>
    simp only [event] at acts
    replace acts := of_ite_some acts
    split at acts
    next =>
      cases acts
      rfl
    next => cases acts

theorem sideline_depart {e : EngineCall} (leaves : depart (.engine e) w = some w') :
    w'.sideline = w.sideline := by
  replace leaves : departEngine e w = some w' := leaves
  unfold departEngine at leaves
  replace leaves := of_ite_some leaves
  split at leaves
  · exact sideline_onValue (fun _ _ => sideline_release) leaves
  · split at leaves
    · exact sideline_onValue (fun _ _ => sideline_toHeap) leaves
    · cases leaves
      rfl

theorem sideline_deliver {e : ForeignCall} {a : Answer} (back : deliver e a w = some w') :
    w'.sideline = w.sideline := by
  rcases deliver_gives back with given | ⟨thrown, rfl⟩
  · exact sideline_onValue (fun _ _ => sideline_toNative) given
  · rfl

/-- What the engine does in a call concerns neither `values` nor the callbacks. -/
theorem reply_flat {e : EngineCall} {a : Answer} (flat : Flat w)
    (reply : bridge.Reply (.engine e) w a w') : Flat w' ∧ w'.values = w.values := by
  have kept : (∀ p, w'.registry.callbackAt p = none) ∧ w'.values = w.values := by
    apply Bridge.reply_by_calls
      (fun s => (∀ p, s.registry.callbackAt p = none) ∧ s.values = w.values) reply
    · intro s leaves
      replace leaves : depart (.engine e) w = some s := leaves
      constructor
      · rw [registry_depart leaves]
        exact callbacks_apply (stores_departChange w _) flat.callbacks
      · exact congrArg Sideline.values (sideline_depart leaves)
    · rintro v s s' ⟨clear, same⟩ acts
      replace acts : event v (some (.engine e)) s = some s' := acts
      constructor
      · rw [registry_event acts]
        exact callbacks_apply (stores_eventChange s v) clear
      · exact (congrArg Sideline.values (sideline_event acts)).trans same
    · rintro o s s' p trace b t s'' ⟨clear, same⟩ called starts
      cases o with
      | native t => cases called
      | jsFnCallback func thisObj argv =>
        replace starts : startCallback func thisObj argv (some (.engine e)) s = some (s', p) := starts
        obtain ⟨⟨-, callback, -⟩, -⟩ := Option.ite_none_right_eq_some.1 starts
        have none : (s.heap func).bind Cell.callback = none := clear func
        rw [none] at callback
        cases callback
    · rintro s s' ⟨clear, same⟩ back
      replace back : deliver (.engine e) a s = some s' := back
      constructor
      · rw [registry_deliver back]
        exact clear
      · exact (congrArg Sideline.values (sideline_deliver back)).trans same
  exact ⟨⟨kept.1, reply_rejections reply flat.queue⟩, kept.2⟩

/-- Primitives that leave `values` and the callbacks alone. -/
def Prim.keepsAccounts : Prim → Bool
  | .setFuncCallback _ _ _ | .valuesInsert _ | .valuesErase _ => false
  | _ => true

theorem exec_flat {c : Prim} {a : Answer} (keeps : c.keepsAccounts = true) (flat : Flat w)
    (acts : exec c w = some (a, w')) : Flat w' ∧ w'.values = w.values := by
  constructor
  · constructor
    · rw [registry_exec acts]
      apply callbacks_apply _ flat.callbacks
      cases c <;> first | rfl | cases keeps
    · exact exec_rejections flat.queue acts
  · cases counts : c.onHeap with
    | true =>
      obtain ⟨heap, rfl⟩ := exec_onHeap acts counts
      rfl
    | false =>
      cases c with
      | takeJob =>
        simp only [exec] at acts
        split at acts
        · cases acts
        · cases acts
          rfl
      | _ => first | (cases counts; done) | (cases keeps; done) | (cases acts; rfl)

end Flatness

section Rules
variable {R S : Type}

abbrev Credit := Addr → Int

def carried (v : JSValue) : Credit := fun p => objectAt p (some v)

theorem carried_other {v : JSValue} (other : v.isObject = false) : carried v = 0 :=
  funext fun p => objectAt_other other p

theorem objectAt_given (e : EngineCall) (a : Answer) (s : World) (p : Addr) :
    objectAt p (Item.given (.call (.engine e) a s)) = carried a.toValue p := by
  cases a <;> rfl

/-- Native code that holds these references beside those of `values` holds those at the end. -/
def Accounts (held : Credit) (p : Program R) (left : R → Credit) : Prop :=
  ∀ w h r u, Flat w → ReportsNeutral h → ReadsScripts h →
    Exec bridge.meaning p w h (.returned r) u →
    Flat u ∧ ∀ q, objectReferences h q + w.keyAt q + held q = u.keyAt q + left r q

variable {held : Credit} {left : R → Credit}

theorem accounts_value (r : R) : Accounts (left r) (.ret r) left := by
  intro w h r' u flat _ _ run
  obtain ⟨rfl, same, rfl⟩ := exec_ret run
  cases same
  exact ⟨flat, fun q => by rw [objectReferences_nil, Int.zero_add]⟩

theorem accounts_ret (r : R) : Accounts held (.ret r) fun _ => held :=
  @accounts_value R (fun _ => held) r

theorem accounts_spin : Accounts held (.spin : Program R) left := by
  intro w h r u flat _ _ run
  exact (exec_spin run).elim

theorem accounts_crash : Accounts held (.crash : Program R) left := by
  intro w h r u flat _ _ run
  obtain ⟨-, dead, -⟩ := exec_crash run
  cases dead

theorem accounts_bind {M : S → Credit} {p : Program S} {f : S → Program R}
    (first : Accounts held p M) (rest : ∀ s, Accounts (M s) (f s) left) :
    Accounts held (p.bind f) left := by
  intro w h r u flat neutral scripts run
  rcases exec_bind run with ⟨s, x, before, after, one, two, rfl⟩ | ⟨-, dead⟩
  · obtain ⟨flat', here⟩ := first w before s x flat (reportsNeutral_append neutral).1
      (readsScripts_append scripts).1 one
    obtain ⟨flat'', there⟩ := rest s x after r u flat' (reportsNeutral_append neutral).2
      (readsScripts_append scripts).2 two
    refine ⟨flat'', fun q => ?_⟩
    have first := here q
    have second := there q
    rw [objectReferences_append]
    omega
  · cases dead

theorem accounts_of_eq {held' : Credit} {p : Program R} (same : held = held')
    (accounts : Accounts held' p left) : Accounts held p left := same ▸ accounts

theorem accounts_prim {c : Prim} {next : Answer → Program R} (keeps : c.keepsAccounts = true)
    (silent : ∀ a u, Item.given (.prim c a u) = none) (rest : ∀ a, Accounts held (next a) left) :
    Accounts held (.prim c next) left := by
  intro w h r u flat neutral scripts run
  obtain ⟨a, s, later, acts, tail, rfl⟩ := exec_prim run
  obtain ⟨flat', same⟩ := exec_flat keeps flat acts
  obtain ⟨flat'', there⟩ := rest a s later r u flat'
    (reportsNeutral_append (h := [_]) neutral).2 (readsScripts_append (h := [_]) scripts).2 tail
  refine ⟨flat'', fun q => ?_⟩
  have second := there q
  rw [World.keyAt, same] at second
  rw [objectReferences_cons, silent]
  change 0 - 0 + objectReferences later q + (if w.values q then 1 else 0) + held q = _
  omega

theorem accounts_askValue {c : Prim} (keeps : c.keepsAccounts = true)
    (gives : ∀ a u, Item.given (.prim c a u) = some a.toValue) :
    Accounts held (askValue c) fun v => held + carried v := by
  intro w h r u flat neutral scripts run
  obtain ⟨a, s, later, acts, tail, rfl⟩ := exec_prim run
  obtain ⟨flat', same⟩ := exec_flat keeps flat acts
  obtain ⟨rfl, same', rfl⟩ := exec_ret tail
  cases same'
  refine ⟨flat', fun q => ?_⟩
  rw [objectReferences_cons, gives, World.keyAt, World.keyAt, same]
  simp only [Item.taken, objectAt_none, objectReferences_nil, Pi.add_apply, carried]
  omega

theorem accounts_engine {e : EngineCall} {next : Answer → Program R}
    (rest : ∀ w a u, bridge.Reply (.engine e) w a u → ReadsScripts [.call (.engine e) a u] →
      Accounts (held + carried a.toValue - fun p => objectAt p e.consumed) (next a) left) :
    Accounts held (.enter (.engine e) next) left := by
  intro w h r u flat neutral scripts run
  obtain ⟨a, s, later, answers, tail, rfl⟩ := exec_enter run
  obtain ⟨flat', same⟩ := reply_flat flat answers
  obtain ⟨flat'', there⟩ := rest w a s answers (readsScripts_append (h := [_]) scripts).1 s later r u
    flat' (reportsNeutral_append (h := [_]) neutral).2 (readsScripts_append (h := [_]) scripts).2 tail
  refine ⟨flat'', fun q => ?_⟩
  have second := there q
  simp only [Pi.add_apply, Pi.sub_apply, World.keyAt, same] at second
  rw [objectReferences_cons, objectAt_given]
  simp only [Item.taken, World.keyAt]
  omega

end Rules

section Commands
variable {R : Type} {held : Credit}

theorem accounts_act {c : Prim} (keeps : c.keepsAccounts = true)
    (silent : ∀ a u, Item.given (.prim c a u) = none) : Accounts held (act c) fun _ => held :=
  accounts_prim keeps silent fun _ => accounts_ret _

theorem accounts_ask {c : Prim} (keeps : c.keepsAccounts = true)
    (silent : ∀ a u, Item.given (.prim c a u) = none) : Accounts held (ask c) fun _ => held :=
  accounts_prim keeps silent fun _ => accounts_ret _

theorem accounts_askJava {c : Prim} (keeps : c.keepsAccounts = true)
    (silent : ∀ a u, Item.given (.prim c a u) = none) : Accounts held (askJava c) fun _ => held :=
  accounts_prim keeps silent fun _ => accounts_ret _

theorem accounts_getStringUTFChars (env : JNIEnv) (s : JavaString) :
    Accounts held (getStringUTFChars env s) fun _ => held :=
  accounts_prim rfl (fun _ _ => rfl) fun _ => accounts_ret _

theorem accounts_newStringUTF (env : JNIEnv) (bytes : Option (List UInt8)) :
    Accounts held (newStringUTF env bytes) fun _ => held := by
  cases bytes with
  | none => exact accounts_crash
  | some bytes => exact accounts_askJava rfl fun _ _ => rfl

theorem accounts_enterValue {e : EngineCall} (keeps : e.consumed = none) :
    Accounts held (enterValue e) fun v => held + carried v := by
  apply accounts_engine
  intro w a u answers scripts
  rw [keeps]
  exact accounts_of_eq (funext fun p => by simp) (accounts_value (a.toValue))

theorem accounts_evalFunction (obj : JSValue) :
    Accounts (held + carried obj) (enterValue (.evalFunction obj)) fun v => held + carried v := by
  apply accounts_engine
  intro w a u answers scripts
  refine accounts_of_eq (funext fun p => ?_) (accounts_value (a.toValue))
  simp only [EngineCall.consumed, Pi.sub_apply, Pi.add_apply, carried]
  omega

def EngineCall.silent (e : EngineCall) : Prop := ∀ v w, deliverEngine e (.value v) w = none

theorem silent_toCString (v : JSValue) : (EngineCall.toCString v).silent := by
  intro v' w
  cases v <;> rfl

theorem reply_silent {e : EngineCall} {a : Answer} {w u : World} (silent : e.silent)
    (reply : bridge.Reply (.engine e) w a u) : carried a.toValue = 0 := by
  obtain ⟨s, s', labels, -, -, back⟩ := reply
  replace back : deliverEngine e a s' = some u := back
  cases a with
  | value v => cases (silent v s').symm.trans back
  | _ => exact carried_other rfl

theorem accounts_silentCall {e : EngineCall} {next : Answer → Program R} {left : R → Credit}
    (keeps : e.consumed = none) (silent : e.silent) (rest : ∀ a, Accounts held (next a) left) :
    Accounts held (.enter (.engine e) next) left := by
  apply accounts_engine
  intro w a u answers scripts
  rw [keeps, reply_silent silent answers]
  exact accounts_of_eq (funext fun p => by simp) (rest a)

theorem accounts_enterText {e : EngineCall} (keeps : e.consumed = none) (silent : e.silent) :
    Accounts held (enterText e) fun _ => held :=
  accounts_silentCall keeps silent fun _ => accounts_ret _

theorem accounts_enterInt {e : EngineCall} (keeps : e.consumed = none) (silent : e.silent) :
    Accounts held (enterInt e) fun _ => held :=
  accounts_silentCall keeps silent fun _ => accounts_ret _

theorem accounts_freeValue (v : JSValue) :
    Accounts (held + carried v) (freeValue v) fun _ => held := by
  unfold freeValue
  cases counted : v.addr? with
  | none =>
    have other : v.isObject = false := by cases v <;> first | rfl | cases counted
    rw [carried_other other]
    exact accounts_of_eq (by simp) (accounts_ret ())
  | some p =>
    apply accounts_engine
    intro w a u answers scripts
    rw [reply_silent (fun _ _ => rfl) answers]
    exact accounts_of_eq (funext fun p => by simp [carried, EngineCall.consumed]) (accounts_ret ())

end Commands

section Reports
variable {R : Type} {held : Credit}

/-- A program that leaves `values` alone, with all engine calls it makes. -/
theorem exec_asks {p : Program R} {w u : World} {h : BridgeHistory} {out : Outcome R}
    (asks : Asks p) (flat : Flat w) (run : Exec bridge.meaning p w h out u) :
    Flat u ∧ u.values = w.values := by
  induction p generalizing w h with
  | ret r =>
    obtain ⟨-, -, rfl⟩ := exec_ret run
    exact ⟨flat, rfl⟩
  | spin => cases run
  | crash =>
    obtain ⟨-, -, rfl⟩ := exec_crash run
    exact ⟨flat, rfl⟩
  | prim c next ih =>
    obtain ⟨a, s, rest, acts, tail, rfl⟩ := exec_prim run
    have keeps : c.keepsAccounts = true := by
      have asked := asks.1
      cases c <;> first | rfl | cases asked
    obtain ⟨flat', same⟩ := exec_flat keeps flat acts
    obtain ⟨flat'', same'⟩ := ih a (asks.2 a) flat' tail
    exact ⟨flat'', same'.trans same⟩
  | enter e next ih =>
    obtain ⟨a, s, rest, answers, tail, rfl⟩ := exec_enter run
    cases e with
    | java f args => cases asks.1.1
    | engine e =>
      obtain ⟨flat', same⟩ := reply_flat flat answers
      obtain ⟨flat'', same'⟩ := ih a (asks.2 a) flat' tail
      exact ⟨flat'', same'.trans same⟩

theorem accounts_getJSErrorStr (error : JSValue) :
    Accounts held (getJSErrorStr error) fun _ => held := by
  intro w h r u flat neutral scripts run
  obtain ⟨flat', same⟩ := exec_asks (asks_getJSErrorStr error) flat run
  refine ⟨flat', fun q => ?_⟩
  have none := neutral [] h [] error w r u (by simp) run q
  rw [none, World.keyAt, World.keyAt, same, Int.zero_add]

theorem accounts_getPendingErrorStr : Accounts held getPendingErrorStr fun _ => held := by
  apply accounts_bind (accounts_askValue rfl fun _ _ => rfl)
  intro error
  apply accounts_bind (accounts_getJSErrorStr error)
  intro text
  exact accounts_bind (accounts_freeValue error) fun _ => accounts_ret text

theorem accounts_throwJSException (env : JNIEnv) (message : List Piece) :
    Accounts held (throwJSException env message) fun _ => held := by
  apply accounts_bind (accounts_ask rfl fun _ _ => rfl)
  intro pending
  split
  · exact accounts_ret ()
  · exact accounts_act rfl fun _ _ => rfl

theorem accounts_reported (env : JNIEnv) (r : R) :
    Accounts held ((throwPendingJSException env).bind fun _ => .ret r) fun _ => held := by
  apply accounts_bind (M := fun _ => held)
  · exact accounts_bind accounts_getPendingErrorStr (accounts_throwJSException env)
  · exact fun _ => accounts_ret r

theorem accounts_rejectionsText (fuel : Nat) (error : List Piece) :
    Accounts held (rejectionsText fuel error) fun _ => held := by
  cases fuel with
  | zero => exact accounts_spin
  | succ fuel =>
    intro w h r u flat neutral scripts run
    obtain ⟨a, s, rest, acts, tail, rfl⟩ := exec_prim run
    cases acts
    rw [flat.queue] at tail
    obtain ⟨rfl, -, rfl⟩ := exec_ret tail
    refine ⟨flat, fun q => ?_⟩
    rw [objectReferences_cons]
    simp [Item.given, Item.taken]

theorem accounts_throwIfUnhandledRejections (fuel : Nat) :
    Accounts held (throwIfUnhandledRejections fuel) fun _ => held := by
  apply accounts_bind (accounts_rejectionsText fuel [])
  intro error
  split
  · exact accounts_ret false
  · exact accounts_bind (accounts_throwJSException .saved _) fun _ => accounts_ret true

theorem accounts_executePendingJob : Accounts held executePendingJob fun _ => held := by
  apply accounts_bind (accounts_ask rfl fun _ _ => rfl)
  intro empty
  split
  · exact accounts_ret 0
  · apply accounts_bind (accounts_act rfl fun _ _ => rfl)
    intro _
    apply accounts_bind (accounts_enterValue rfl)
    intro res
    exact accounts_bind (accounts_freeValue res) fun _ => accounts_ret _

theorem accounts_pendingJobRounds (env : JNIEnv) (fuel : Nat) :
    Accounts held (pendingJobRounds env fuel) fun _ => held := by
  induction fuel with
  | zero => exact accounts_spin
  | succ fuel ih =>
    apply accounts_bind accounts_executePendingJob
    intro err
    split
    · exact ih
    · split
      · apply accounts_bind accounts_getPendingErrorStr
        intro error
        exact accounts_bind (accounts_throwJSException env error) fun _ => accounts_ret false
      · exact accounts_ret true

theorem accounts_executePendingJobLoop (env : JNIEnv) (fuel : Nat) :
    Accounts held (executePendingJobLoop env fuel) fun _ => held := by
  apply accounts_bind (accounts_ask rfl fun _ _ => rfl)
  intro pending
  split
  · exact accounts_ret false
  · apply accounts_bind (accounts_pendingJobRounds env fuel)
    intro finished
    split
    · apply accounts_bind (accounts_act rfl fun _ _ => rfl)
      intro _
      exact accounts_bind (accounts_throwIfUnhandledRejections fuel) fun _ => accounts_ret _
    · exact accounts_ret false

end Reports

section Results
variable {held : Credit}

theorem accounts_newHandle (env : JNIEnv) (thisObj value : JSValue) (borrowed : Bool) :
    Accounts held (newHandle env thisObj value borrowed) fun _ => held := by
  apply accounts_bind (accounts_ask rfl fun _ _ => rfl)
  intro isFunction
  split
  · exact accounts_askJava rfl fun _ _ => rfl
  · apply accounts_bind (accounts_enterInt rfl fun v w => ?_)
    · intro isArray
      split <;> exact accounts_askJava rfl fun _ _ => rfl
    · cases v <;> rfl

theorem accounts_keepValue (p : Addr) :
    Accounts (held + carried (.object p)) (keepValue (.object p)) fun _ => held := by
  intro w h r u flat neutral scripts run
  obtain ⟨a, s, rest, acts, tail, rfl⟩ := exec_prim run
  cases acts
  replace tail : Exec bridge.meaning (if w.values p then freeValue (.object p)
    else act (.valuesInsert p)) w rest (.returned r) u := tail
  cases known : w.values p with
  | true =>
    rw [if_pos known] at tail
    have frees : Accounts (held + carried (.object p)) (freeValue (.object p)) fun _ => held :=
      accounts_freeValue _
    obtain ⟨flat', balance⟩ := frees w rest r u flat
      (reportsNeutral_append (h := [_]) neutral).2 (readsScripts_append (h := [_]) scripts).2 tail
    refine ⟨flat', fun q => ?_⟩
    rw [objectReferences_silent rfl rfl]
    exact balance q
  | false =>
    rw [known, if_neg Bool.false_ne_true] at tail
    obtain ⟨b, x, later, inserts, last, rfl⟩ := exec_prim tail
    cases inserts
    obtain ⟨rfl, -, rfl⟩ := exec_ret last
    refine ⟨⟨flat.callbacks, flat.queue⟩, fun q => ?_⟩
    rw [objectReferences_silent rfl rfl, objectReferences_silent rfl rfl]
    simp only [objectReferences_nil, Pi.add_apply, carried, World.keyAt, objectAt]
    by_cases here : q = p
    · subst here
      simp [known, Int.add_comm]
    · have other : ¬ JSValue.object p = .object q := fun same => here (JSValue.object.inj same).symm
      simp [here, other]

theorem accounts_toJavaObject (env : JNIEnv) (thisObj value : JSValue) :
    Accounts (held + carried value) (toJavaObject env thisObj value true) fun _ => held := by
  have plain : value.isObject = false → ∀ {p : Program (Option JavaObject)},
      Accounts held p (fun _ => held) → Accounts (held + carried value) p fun _ => held := by
    intro other p accounts
    rw [carried_other other]
    exact accounts_of_eq (by simp) accounts
  cases value with
  | object p =>
    apply accounts_bind (accounts_newHandle env thisObj (.object p) (!true))
    intro result
    exact accounts_bind (accounts_keepValue p) fun _ => accounts_ret result
  | string p s =>
    apply accounts_bind (accounts_enterText rfl (silent_toCString _))
    intro text
    apply accounts_bind (accounts_newStringUTF env text)
    intro result
    exact accounts_bind (accounts_freeValue _) fun _ => accounts_ret result
  | float64 d =>
    apply plain rfl
    simp only [toJavaObject]
    split <;> exact accounts_askJava rfl fun _ _ => rfl
  | bool b => exact plain rfl (accounts_askJava rfl fun _ _ => rfl)
  | int n => exact plain rfl (accounts_askJava rfl fun _ _ => rfl)
  | bigInt p n => exact plain rfl (accounts_askJava rfl fun _ _ => rfl)
  | _ => exact plain rfl (accounts_ret none)

theorem accounts_unlessException {R : Type} {left : R → Credit} {v : JSValue} {p q : Program R}
    (failed : Accounts held p left) (fine : Accounts (held + carried v) q left) :
    Accounts (held + carried v) (if v.isException then p else q) left := by
  split
  next thrown =>
    have none : v = .exception := of_decide_eq_true thrown
    rw [none, carried_other rfl]
    exact accounts_of_eq (by simp) failed
  next => exact fine

theorem accounts_afterJobs {env : JNIEnv} {fuel : Nat} {result : JSValue}
    {p : Program (Option JavaObject)} (finish : Accounts (held + carried result) p fun _ => held) :
    Accounts (held + carried result) ((executePendingJobLoop env fuel).bind fun finished =>
      if finished then p else (freeValue result).bind fun _ => .ret none) fun _ => held := by
  apply accounts_bind (accounts_executePendingJobLoop env fuel)
  intro finished
  split
  · exact finish
  · exact accounts_bind (accounts_freeValue result) fun _ => accounts_ret none

theorem accounts_globalResult (env : JNIEnv) (result : JSValue) :
    Accounts (held + carried result) ((askValue .getGlobalObject).bind fun global =>
      (toJavaObject env global result true).bind fun jsObj =>
        (freeValue global).bind fun _ => .ret jsObj) fun _ => held := by
  apply accounts_bind (accounts_askValue rfl fun _ _ => rfl)
  intro global
  apply accounts_bind
  · rw [add_right_comm]
    exact accounts_toJavaObject env global result
  · intro jsObj
    exact accounts_bind (accounts_freeValue global) fun _ => accounts_ret jsObj

end Results

section Operations
variable {held : Credit} {env : JNIEnv}

theorem accounts_evaluate (script fileName : JavaString) (fuel : Nat) :
    Accounts held (Wrapper.evaluate env script fileName fuel) fun _ => held := by
  apply accounts_bind (accounts_getStringUTFChars env script)
  intro script
  apply accounts_bind (accounts_getStringUTFChars env fileName)
  intro fileName
  apply accounts_bind (accounts_enterValue rfl)
  intro result
  apply accounts_unlessException (accounts_reported env none)
  exact accounts_afterJobs (accounts_globalResult env result)

theorem accounts_evaluateModule (script fileName : JavaString) (fuel : Nat) :
    Accounts held (Wrapper.evaluateModule env script fileName fuel) fun _ => held := by
  apply accounts_bind (accounts_getStringUTFChars env script)
  intro script
  apply accounts_bind (accounts_getStringUTFChars env fileName)
  intro fileName
  apply accounts_bind (accounts_enterValue rfl)
  intro result
  apply accounts_unlessException (accounts_reported env none)
  exact accounts_afterJobs (accounts_globalResult env result)

theorem accounts_getGlobalObject : Accounts held (Wrapper.getGlobalObject env) fun _ => held := by
  apply accounts_bind (accounts_askValue rfl fun _ _ => rfl)
  intro value
  apply accounts_bind (accounts_askJava rfl fun _ _ => rfl)
  intro result
  exact accounts_bind (accounts_freeValue value) fun _ => accounts_ret result

theorem accounts_getProperty (objValue : Nat) (name : JavaString) :
    Accounts held (Wrapper.getProperty env objValue name) fun _ => held := by
  apply accounts_bind (accounts_getStringUTFChars env name)
  intro propsName
  apply accounts_bind (accounts_enterValue rfl)
  intro propsValue
  exact accounts_unlessException (accounts_reported env none) (accounts_toJavaObject env _ propsValue)

theorem accounts_get (objValue : Nat) (index : Int32) :
    Accounts held (Wrapper.get env objValue index) fun _ => held := by
  apply accounts_bind (accounts_enterValue rfl)
  intro child
  exact accounts_toJavaObject env _ child

theorem accounts_parseJSON (json : JavaString) :
    Accounts held (Wrapper.parseJSON env json) fun _ => held := by
  apply accounts_bind (accounts_getStringUTFChars env json)
  intro json
  apply accounts_bind (accounts_enterValue rfl)
  intro jsonObj
  exact accounts_unlessException (accounts_reported env none) (accounts_toJavaObject env _ jsonObj)

theorem accounts_call (func thisObj : Nat) (fuel : Nat) :
    Accounts held (Wrapper.call env func thisObj [] fuel) fun _ => held := by
  apply accounts_bind (accounts_enterValue rfl)
  intro ret
  apply accounts_unlessException (accounts_reported env none)
  exact accounts_afterJobs (accounts_toJavaObject env _ ret)

/-- A script that was read is consumed when it is evaluated, and one that cannot be resolved is
    no object. -/
theorem accounts_execute (byteCode : List UInt8) (fuel : Nat) :
    Accounts held (Wrapper.execute env byteCode fuel) fun _ => held := by
  apply accounts_engine
  intro w a u answers scripts
  have other : a.toValue.isObject = false := by
    cases a with
    | value v => exact scripts byteCode v u (List.mem_singleton.2 rfl)
    | _ => rfl
  have nothing : (held + carried a.toValue - fun p => objectAt p none) = held := by
    rw [carried_other other]
    funext p
    simp
  apply accounts_of_eq nothing
  simp only [Prog.bind_ret]
  split
  · exact accounts_reported env none
  · apply accounts_bind (accounts_enterInt rfl fun _ _ => rfl)
    intro status
    split
    · exact accounts_ret none
    · have resolved : held = held + carried a.toValue := by rw [carried_other other, add_zero]
      apply accounts_of_eq resolved
      apply accounts_bind (accounts_evalFunction a.toValue)
      intro val
      apply accounts_afterJobs
      exact accounts_unlessException (accounts_reported env none) (accounts_toJavaObject env _ val)

theorem accounts_freeValueOf (value : Nat) : Accounts held (Wrapper.freeValue value) fun _ => held := by
  intro w h r u flat neutral scripts run
  obtain ⟨a, s, rest, acts, tail, rfl⟩ := exec_prim run
  cases acts
  replace tail : Exec bridge.meaning (if w.values value then QuickJSBridge.freeValue (.object value)
    else .ret ()) { w with values := Function.update w.values value false } rest (.returned r) u := tail
  cases known : w.values value with
  | true =>
    rw [if_pos known] at tail
    have frees : Accounts (held + carried (.object value)) (QuickJSBridge.freeValue (.object value))
      fun _ => held := accounts_freeValue _
    have erased : Flat { w with values := Function.update w.values value false } :=
      ⟨flat.callbacks, flat.queue⟩
    obtain ⟨flat', balance⟩ := frees _ rest r u erased
      (reportsNeutral_append (h := [_]) neutral).2 (readsScripts_append (h := [_]) scripts).2 tail
    refine ⟨flat', fun q => ?_⟩
    have after := balance q
    rw [objectReferences_silent rfl rfl]
    simp only [Pi.add_apply, carried, World.keyAt, objectAt] at after ⊢
    by_cases here : q = value
    · subst here
      simp only [Function.update_self, known, Bool.false_eq_true, if_true, if_false] at after ⊢
      omega
    · have other : ¬ some (JSValue.object value) = some (.object q) := by
        rintro ⟨⟩
        exact here rfl
      simp only [Function.update_of_ne here, if_neg other] at after ⊢
      omega
  | false =>
    rw [known, if_neg Bool.false_ne_true] at tail
    obtain ⟨rfl, -, rfl⟩ := exec_ret tail
    refine ⟨⟨flat.callbacks, flat.queue⟩, fun q => ?_⟩
    rw [objectReferences_silent rfl rfl]
    have same : (Function.update w.values value false) = w.values := by
      rw [← known, Function.update_eq_self]
    simp only [objectReferences_nil, World.keyAt, same]
    omega

theorem accounts_when {p : Program Unit} {condition : Bool}
    (accounts : Accounts held p fun _ => held) : Accounts held (p.when condition) fun _ => held := by
  cases condition with
  | true => exact accounts
  | false => exact accounts_ret ()

theorem accounts_jsStdDumpError : Accounts held Wrapper.jsStdDumpError fun _ => held := by
  have dumpObj : ∀ {held : Credit} v, Accounts held (Wrapper.jsDumpObj v) fun _ => held := fun v =>
    accounts_bind (accounts_enterText rfl (silent_toCString v)) fun _ => accounts_ret ()
  apply accounts_bind (accounts_askValue rfl fun _ _ => rfl)
  intro exceptionVal
  apply accounts_bind (accounts_ask rfl fun _ _ => rfl)
  intro isError
  apply accounts_bind (dumpObj exceptionVal)
  intro _
  apply accounts_bind (M := fun _ => held + carried exceptionVal)
  · apply accounts_when
    apply accounts_bind (accounts_enterValue rfl)
    intro val
    exact accounts_bind (accounts_when (dumpObj val)) fun _ => accounts_freeValue val
  · exact fun _ => accounts_freeValue exceptionVal

theorem accounts_create (t : ThreadId) : Accounts held (Wrapper.create t) fun _ => held := by
  apply accounts_bind (accounts_act rfl fun _ _ => rfl)
  intro _
  apply accounts_bind (accounts_act rfl fun _ _ => rfl)
  intro _
  apply accounts_bind (accounts_silentCall rfl (fun _ _ => rfl) fun _ => accounts_ret ())
  intro _
  apply accounts_bind (M := fun _ => held)
  · apply accounts_bind (accounts_enterValue rfl)
    intro compiled
    apply accounts_bind (M := fun val => held + carried val)
    · unfold Wrapper.evalCompiled
      split
      · exact @accounts_value JSValue (fun val => held + carried val) compiled
      · apply accounts_bind (accounts_silentCall rfl (fun _ _ => rfl) fun _ => accounts_ret ())
        exact fun _ => accounts_evalFunction compiled
    · intro val
      exact accounts_bind (accounts_when accounts_jsStdDumpError) fun _ => accounts_freeValue val
  · intro _
    apply accounts_bind (accounts_act rfl fun _ _ => rfl)
    exact fun _ => accounts_act rfl fun _ _ => rfl

theorem accounts_nonNull {argument : Option JavaString} {message : String}
    {p : JavaString → Program Answer} (accounts : ∀ s, Accounts held (p s) fun _ => held) :
    Accounts held (nonNull env argument message p) fun _ => held := by
  cases argument with
  | none => exact accounts_bind (accounts_act rfl fun _ _ => rfl) fun _ => accounts_ret _
  | some s => exact accounts s

def NativeOp.accounted : NativeOp → Bool
  | .createContext | .evaluate _ _ _ | .evaluateModule _ _ _ | .execute _ _ => true
  | .getGlobalObject | .getProperty _ _ | .get _ _ | .freeValue _ | .parseJSON _ => true
  | .call _ _ args _ => args.isEmpty
  | _ => false

theorem accounts_program {op : NativeOp} (listed : op.accounted = true) (t : ThreadId) :
    Accounts held (op.program t) fun _ => held := by
  have returned : ∀ {R : Type} {p : Program R} {f : R → Answer}, Accounts held p (fun _ => held) →
      Accounts held (p.bind fun r => .ret (f r)) fun _ => held :=
    fun accounts => accounts_bind accounts fun _ => accounts_ret _
  cases op with
  | createContext => exact returned (accounts_create t)
  | evaluate script fileName fuel =>
    exact accounts_nonNull fun script => accounts_nonNull fun fileName =>
      returned (accounts_evaluate script fileName fuel)
  | evaluateModule script fileName fuel =>
    exact accounts_nonNull fun script => accounts_nonNull fun fileName =>
      returned (accounts_evaluateModule script fileName fuel)
  | execute bytecode fuel =>
    cases bytecode with
    | none => exact accounts_crash
    | some bytecode => exact returned (accounts_execute bytecode fuel)
  | getGlobalObject => exact returned accounts_getGlobalObject
  | getProperty objValue name =>
    exact accounts_nonNull fun name => returned (accounts_getProperty objValue name)
  | get objValue index => exact returned (accounts_get objValue index)
  | freeValue objValue => exact returned (accounts_freeValueOf objValue)
  | parseJSON json => exact accounts_nonNull fun json => returned (accounts_parseJSON json)
  | call func thisObj args fuel =>
    cases args with
    | nil => exact returned (accounts_call func thisObj fuel)
    | cons arg args => cases listed
  | _ => cases listed

theorem objectReferences_freeValue {v : JSValue} {w u : World} {h : BridgeHistory} {out : Outcome Unit}
    (run : Exec bridge.meaning (freeValue v) w h out u) (p : Addr) :
    objectReferences h p = -objectAt p (some v) := by
  unfold freeValue at run
  cases counted : v.addr? with
  | none =>
    rw [counted] at run
    obtain ⟨rfl, -, -⟩ := exec_ret run
    have other : v.isObject = false := by cases v <;> first | rfl | cases counted
    rw [objectAt_other other]
    rfl
  | some q =>
    rw [counted] at run
    obtain ⟨a, s, rest, answers, tail, rfl⟩ := exec_enter run
    obtain ⟨rfl, -, -⟩ := exec_ret tail
    rw [objectReferences_cons, objectAt_given, reply_silent (fun _ _ => rfl) answers]
    simp [Item.taken, EngineCall.consumed]

theorem objectReferences_freeValues {keys : List Nat} {w u : World} {h : BridgeHistory}
    {out : Outcome Unit} (once : keys.Nodup)
    (run : Exec bridge.meaning (Wrapper.freeValues (keys.map .object)) w h out u) (p : Addr) :
    objectReferences h p = if p ∈ keys then -1 else 0 := by
  induction keys generalizing w h with
  | nil =>
    obtain ⟨rfl, -, -⟩ := exec_ret run
    rfl
  | cons key keys ih =>
    obtain ⟨new, once⟩ := List.nodup_cons.1 once
    rcases exec_bind run with ⟨⟨⟩, s, before, after, first, last, rfl⟩ | ⟨first, -⟩
    · rw [objectReferences_append, objectReferences_freeValue first, ih once last]
      by_cases here : p = key
      · subst here
        simp [new, objectAt]
      · have other : ¬ key = p := fun same => here same.symm
        simp [here, other, objectAt]
    · cases (exec_freeValue first).1

end Operations

section Sessions
variable {w w' u : World}

/-- The operation is one of those accounted for, and executes scripts. -/
def Accounted (x : Operation World Prim ForeignCall Answer BridgeOp) : Prop :=
  (∃ t op, x.op = .native t ∧ nextNative x.before t = some op ∧ op.accounted = true) ∧
    ReadsScripts x.history

/-- The references to an object the wrapper owns after these operations. -/
def ownedReferences (ops : List (Operation World Prim ForeignCall Answer BridgeOp)) (p : Addr) : Int :=
  (ops.map fun x => objectReferences x.history p).sum

theorem flat_fresh (globalObj : Addr) (jvm : List UInt8 → JavaString) :
    Flat (World.fresh globalObj jvm) := by
  refine ⟨fun p => ?_, rfl⟩
  by_cases here : p = globalObj
  · subst here
    simp [World.registry, World.fresh]
  · simp [World.registry, World.fresh, here]

theorem flat_event {ev : Event} {ctx : Option ForeignCall} (flat : Flat w)
    (acts : event ev ctx w = some w') : Flat w' := by
  constructor
  · rw [registry_event acts]
    exact callbacks_apply (stores_eventChange w ev) flat.callbacks
  · have performed : bridge.perform ⟨.event ev, ctx, w⟩ = some w' := acts
    exact perform_rejections flat.queue performed

theorem start_accounted {t : ThreadId} {op : NativeOp} {p : Program Answer}
    (next : nextNative w t = some op) (starts : startNative t w = some (w', p)) :
    p = op.program t ∧ w'.values = w.values ∧ w'.unhandledRejections = w.unhandledRejections := by
  unfold nextNative at next
  unfold startNative at starts
  split at starts
  next op' rest frames ready =>
    rw [ready] at next
    cases next
    split at starts
    · cases starts
    · cases of_ite_some starts
      exact ⟨rfl, rfl, rfl⟩
  next => cases starts

theorem finish_accounted {t : ThreadId} {a : Answer} (done : finishNative t a w = some w') :
    w'.values = w.values ∧ w'.unhandledRejections = w.unhandledRejections := by
  unfold finishNative at done
  split at done
  next =>
    cases done
    exact ⟨rfl, rfl⟩
  next => cases done

theorem operation_accounted {t : ThreadId} {op : NativeOp} {p : Program Answer} {h : BridgeHistory}
    {a : Answer} {v v' : World} (flat : Flat w) (next : nextNative w t = some op)
    (listed : op.accounted = true) (starts : startNative t w = some (w', p))
    (run : Exec bridge.meaning p w' h (.returned a) v) (done : finishNative t a v = some v')
    (scripts : ReadsScripts h) (neutral : ReportsNeutral h) :
    Flat v' ∧ ∀ q, objectReferences h q + w.keyAt q = v'.keyAt q := by
  obtain ⟨rfl, values, queue⟩ := start_accounted next starts
  obtain ⟨values', queue'⟩ := finish_accounted done
  have started : start (.native t) none w = some (w', op.program t) := starts
  have finished : finish (.native t) a v = some v' := done
  have flat' : Flat w' := by
    refine ⟨?_, queue.trans flat.queue⟩
    rw [registry_start started]
    exact flat.callbacks
  have accounts : Accounts 0 (op.program t) fun _ => 0 := accounts_program listed t
  obtain ⟨flat'', balance⟩ := accounts w' h a v flat' neutral scripts run
  constructor
  · refine ⟨?_, queue'.trans flat''.queue⟩
    rw [registry_finish finished]
    exact flat''.callbacks
  · intro q
    have here := balance q
    simp only [World.keyAt, values, Pi.zero_apply, Int.add_zero] at here
    rw [World.keyAt, World.keyAt, values']
    exact here

theorem session_accounted {globalObj : Addr} {jvm : List UInt8 → JavaString}
    {ops : List (Operation World Prim ForeignCall Answer BridgeOp)}
    (session : bridge.Session (.fresh globalObj jvm) ops u)
    (accounted : ∀ x ∈ ops, Accounted x ∧ ReportsNeutral x.history) :
    Flat u ∧ ∀ p, ownedReferences ops p = u.keyAt p := by
  have always : (∀ x ∈ ops, Accounted x ∧ ReportsNeutral x.history) →
      Flat u ∧ ∀ p, ownedReferences ops p = u.keyAt p := by
    apply Bridge.session_invariant (fun ops u => (∀ x ∈ ops, Accounted x ∧ ReportsNeutral x.history) →
      Flat u ∧ ∀ p, ownedReferences ops p = u.keyAt p) session
    · exact fun _ => ⟨flat_fresh globalObj jvm, fun p => rfl⟩
    · intro ops v t u ih acts accounted
      replace acts : event v none t = some u := acts
      obtain ⟨flat, balance⟩ := ih accounted
      refine ⟨flat_event flat acts, fun p => ?_⟩
      have same : u.values = t.values := congrArg Sideline.values (sideline_event acts)
      rw [balance, World.keyAt, World.keyAt, same]
    · intro ops o t t' v v' p h a ih starts run done accounted
      rw [List.forall_mem_append, List.forall_mem_singleton] at accounted
      obtain ⟨flat, balance⟩ := ih accounted.1
      obtain ⟨⟨⟨thread, op, same, next, listed⟩, scripts⟩, neutral⟩ := accounted.2
      cases same
      obtain ⟨flat', moved⟩ := operation_accounted flat next listed starts run done scripts neutral
      refine ⟨flat', fun q => ?_⟩
      have before := balance q
      rw [ownedReferences] at before ⊢
      rw [List.map_append, List.sum_append, before, ← moved]
      simp [Int.add_comm]
  exact always accounted

/-- A run that comes to rest is a session. At its end the wrapper owns exactly one reference to
    every object whose address is a key of `values` and none to any other; the destructor,
    which frees each entry once, leaves none at all. -/
theorem objects_accounted {globalObj : Addr} {jvm : List UInt8 → JavaString}
    {labels : List BridgeLabel}
    (ran : bridge.run labels (initial globalObj jvm) = some ⟨u, .outside, []⟩) :
    (∃ ops, bridge.Session (.fresh globalObj jvm) ops u) ∧
    ∀ ops, bridge.Session (.fresh globalObj jvm) ops u →
      (∀ x ∈ ops, Accounted x ∧ ReportsNeutral x.history) →
      (∀ p, ownedReferences ops p = if u.values p then 1 else 0) ∧
      ∀ keys : List Nat, keys.Nodup → (∀ p, p ∈ keys ↔ u.values p = true) → ∀ h v,
        Exec bridge.meaning (Wrapper.freeValues (keys.map .object)) u h (.returned ()) v →
        ∀ p, ownedReferences ops p + objectReferences h p = 0 := by
  refine ⟨Bridge.session_of_run ran, fun ops session accounted => ?_⟩
  obtain ⟨flat, owned⟩ := session_accounted session accounted
  refine ⟨owned, fun keys once all h v run p => ?_⟩
  rw [owned, objectReferences_freeValues once run, World.keyAt]
  simp only [all]
  split <;> rfl

def asksError : BridgeItem → Bool
  | .prim (.isError _) _ _ => true
  | _ => false

theorem reportsNeutral_of_none {h : BridgeHistory} (none : h.any asksError = false) :
    ReportsNeutral h := by
  rintro before text after error x message y rfl report
  obtain ⟨a, s, rest, acts, tail, rfl⟩ := exec_prim report
  simp [asksError] at none

/-- A script returns an object, which `values` then knows. -/
theorem evaluated_object_owned : ∃ (labels : List BridgeLabel) (u : World)
    (ops : List (Operation World Prim ForeignCall Answer BridgeOp)),
    bridge.run labels (initial 1 fun _ => []) = some ⟨u, .outside, []⟩ ∧
    bridge.Session (.fresh 1 fun _ => []) ops u ∧ ownedReferences ops 10 = 1 := by
  have reach : bridge.CanGoOn (fun x => Accounted x ∧ ReportsNeutral x.history)
      (.fresh 1 fun _ => []) (.fresh 1 fun _ => []) fun _ u => u.values 10 = true := by
    refine Bridge.canGoOn_event (v := .spawn 0 .newWrapper) rfl ?_
    refine Bridge.canGoOn_call (o := .native 0) rfl rfl ?_
    refine can_prim rfl (can_prim rfl ?_)
    refine can_enter (a := .unit) ⟨_, _, [], rfl, rfl, rfl⟩ ?_
    refine can_enter (a := .value (.module 2)) ⟨_, _, [.event (.engine (.alloc 2 none))], rfl, rfl, rfl⟩ ?_
    refine can_enter (a := .unit) ⟨_, _, [], rfl, rfl, rfl⟩ ?_
    refine can_enter (a := .value .undefined) ⟨_, _, [.event (.engine (.libcRead .jsOsInit))], rfl, rfl, rfl⟩ ?_
    refine can_prim rfl (can_prim rfl ?_)
    refine can_ret ⟨⟨⟨⟨0, _, rfl, rfl, rfl⟩, ?_⟩, reportsNeutral_of_none rfl⟩, _, rfl, ?_⟩
    · simp [ReadsScripts]
    refine Bridge.canGoOn_event (v := .retire 0) rfl ?_
    refine Bridge.canGoOn_event (v := .spawn 0 (.evaluate (some []) (some []) false 1)) rfl ?_
    refine Bridge.canGoOn_call (o := .native 0) rfl rfl ?_
    refine can_prim rfl (can_prim rfl ?_)
    refine can_enter (a := .value (.object 10))
      ⟨_, _, [.event (.engine (.alloc 10 (some .plain)))], rfl, rfl, rfl⟩ ?_
    -- the job loop finds nothing to do
    refine can_prim rfl (can_prim rfl (can_prim rfl (can_prim rfl ?_)))
    refine can_prim rfl (can_prim rfl ?_)
    refine can_enter (a := .int 0) ⟨_, _, [], rfl, rfl, rfl⟩ ?_
    refine can_prim rfl (can_prim rfl (can_prim rfl ?_))
    refine can_enter (a := .unit) ⟨_, _, [], rfl, rfl, rfl⟩ ?_
    refine can_ret ⟨⟨⟨⟨0, _, rfl, rfl, rfl⟩, ?_⟩, reportsNeutral_of_none rfl⟩, _, rfl, ?_⟩
    · simp [ReadsScripts]
    exact Bridge.canGoOn_rest fun _ => rfl
  obtain ⟨ops, u, session, accounted, known⟩ := reach [] .rest (by simp)
  obtain ⟨labels, ran⟩ := Bridge.run_of_session session
  refine ⟨labels, u, ops, ran, session, ?_⟩
  rw [((objects_accounted ran).2 ops session accounted).1 10, known]
  rfl

end Sessions
end QuickJSBridge
