import QuickJSBridge.ReferenceLedger

/- The handler a script can install for the errors that are reported: globalThis.onError, or
   globalThis.onerror where the other is null. -/
namespace QuickJSBridge
open HostProgram ReentrantMachine

section Lookups
variable {w u : World} {h : BridgeHistory} {global error : JSValue}

/-- What a script has made of the two properties, and which values can be called. -/
structure Handlers where
  upper : JSValue
  lower : JSValue
  callable : JSValue → Bool

def lookup? (name : List UInt8) : BridgeItem → Option (JSValue × Bool)
  | .call (.engine (.getPropertyStr _ n)) (.value v) s =>
    if n = name then some (v, s.isFunction v) else none
  | _ => none

def FoundAt (h : BridgeHistory) (name : List UInt8) (value : JSValue)
    (callable : JSValue → Bool) : Prop :=
  ∀ found ∈ h.filterMap (lookup? name), found = (value, callable value)

def Handlers.Found (g : Handlers) (h : BridgeHistory) : Prop :=
  FoundAt h (ascii "onError") g.upper g.callable ∧ FoundAt h (ascii "onerror") g.lower g.callable

def Handlers.expected (g : Handlers) : Option JSValue :=
  if g.callable g.upper then some g.upper else if g.callable g.lower then some g.lower else none

/-- The handler the wrapper takes. -/
def Handlers.chosen (g : Handlers) : JSValue := if g.upper.isNull then g.lower else g.upper

def called? : BridgeItem → Option (JSValue × List JSValue)
  | .call (.engine (.call func _ args)) _ _ => some (func, args)
  | _ => none

/-- What calls in the history answered. -/
def callAnswer? : BridgeItem → Option JSValue
  | .call (.engine (.call _ _ _)) (.value v) _ => some v
  | _ => none

/-- The right handler has been called once with the error, or none, and nothing is left over. -/
structure Dispatched (g : Handlers) (error : JSValue) (h : BridgeHistory) (u : World) : Prop where
  calls : h.filterMap called? = g.expected.toList.map fun handler => (handler, [error])
  exception : u.exception = .null
  balanced : ∀ p, references h p = 0

theorem exec_property {obj : JSValue} {name : List UInt8} {out : Outcome JSValue}
    (run : Exec bridge.meaning (enterValue (.getPropertyStr obj name)) w h out u) :
    ∃ v, h = [.call (.engine (.getPropertyStr obj name)) (.value v) u] ∧ out = .returned v := by
  obtain ⟨a, s, rest, answers, tail, rfl⟩ := exec_enter run
  obtain ⟨v, rfl⟩ := reply_property answers
  obtain ⟨rfl, rfl, rfl⟩ := exec_ret tail
  exact ⟨v, rfl, rfl⟩

theorem exec_findOnError {out : Outcome JSValue}
    (run : Exec bridge.meaning (findOnError global) w h out u) :
    ∃ upper s, .call (.engine (.getPropertyStr global (ascii "onError"))) (.value upper) s ∈ h ∧
      h.filterMap called? = [] ∧ h.filterMap callAnswer? = [] ∧
      ((upper.isNull = false ∧ out = .returned upper ∧
        ∀ p, references h p = countAt p (some upper)) ∨
      (upper = .null ∧ ∃ lower, out = .returned lower ∧
        .call (.engine (.getPropertyStr global (ascii "onerror"))) (.value lower) u ∈ h ∧
        ∀ p, references h p = countAt p (some lower))) := by
  rcases exec_bind run with ⟨upper, s, before, after, read, run', rfl⟩ | ⟨read, -⟩
  · obtain ⟨v, rfl, same⟩ := exec_property read
    cases same
    split at run'
    next null =>
      have same : upper = .null := of_decide_eq_true null
      subst same
      obtain ⟨lower, rfl, rfl⟩ := exec_property run'
      refine ⟨.null, s, List.mem_cons_self, rfl, rfl, Or.inr ⟨rfl, lower, rfl, by simp, ?_⟩⟩
      intro p
      have none : countAt p (some .null) = 0 := countAt_uncounted rfl p
      simp [Item.gained, Item.given, Item.taken, EngineCall.consumed, none]
    next other =>
      obtain ⟨rfl, rfl, rfl⟩ := exec_ret run'
      refine ⟨upper, _, List.mem_cons_self, rfl, rfl, Or.inl ⟨Bool.eq_false_iff.2 other, rfl, ?_⟩⟩
      intro p
      simp [Item.gained, Item.given, Item.taken, EngineCall.consumed]
  · obtain ⟨v, -, dead⟩ := exec_property read
    cases dead

theorem frees_nothing_called {v : JSValue} {out : Outcome Unit}
    (run : Exec bridge.meaning (freeValue v) w h out u) :
    h.filterMap called? = [] ∧ h.filterMap callAnswer? = [] := by
  obtain ⟨-, -, calls⟩ := exec_freeValue run
  constructor
  all_goals
    apply List.filterMap_eq_nil_iff.2
    intro item member
    obtain ⟨a, s, rfl⟩ := calls item member
    rfl

theorem foundAt_mem {name : List UInt8} {value v obj : JSValue} {callable : JSValue → Bool} {s : World}
    (found : FoundAt h name value callable)
    (read : .call (.engine (.getPropertyStr obj name)) (.value v) s ∈ h) :
    v = value ∧ callable v = s.isFunction v := by
  have here := found (v, s.isFunction v) (List.mem_filterMap.2 ⟨_, read, by simp [lookup?]⟩)
  obtain ⟨rfl, same⟩ := Prod.mk.inj here
  exact ⟨rfl, same.symm⟩

theorem foundAt_of_lookups {name : List UInt8} {value : JSValue} {callable : JSValue → Bool}
    {found : List (JSValue × Bool)} (same : h.filterMap (lookup? name) = found)
    (all : ∀ x ∈ found, x = (value, callable value)) : FoundAt h name value callable := by
  unfold FoundAt
  rwa [same]

theorem isNull_iff {v : JSValue} : v.isNull = true ↔ v = .null := decide_eq_true_iff

theorem lookup_chosen {g : Handlers} {handler : JSValue}
    (run : Exec bridge.meaning (findOnError global) w h (.returned handler) u)
    (found : g.Found h) : handler = g.chosen ∧ (g.upper = .null → g.callable .null = false) ∧
      (handler = .null → g.callable handler = false) ∧ h.filterMap called? = [] ∧
      h.filterMap callAnswer? = [] ∧ ∀ p, references h p = countAt p (some handler) := by
  obtain ⟨upper, s, read, calls, answers, ⟨present, same, balance⟩ | ⟨rfl, lower, same, read', balance⟩⟩ :=
    exec_findOnError run
  · cases same
    obtain ⟨rfl, callable⟩ := foundAt_mem found.1 read
    refine ⟨by rw [Handlers.chosen, present]; rfl, ?_, ?_, calls, answers, balance⟩
    · intro null
      rw [isNull_iff.2 null] at present
      cases present
    · intro null
      rw [isNull_iff.2 null] at present
      cases present
  · cases same
    obtain ⟨null, callable⟩ := foundAt_mem found.1 read
    obtain ⟨rfl, callable'⟩ := foundAt_mem found.2 read'
    refine ⟨?_, fun _ => callable, ?_, calls, answers, balance⟩
    · rw [Handlers.chosen, ← null]
      rfl
    · intro none
      rw [none] at callable' ⊢
      exact callable'

end Lookups

section Dispatch
variable {w u : World} {h : BridgeHistory} {error : JSValue}

theorem reply_call {func this : JSValue} {args : List JSValue} {a : Answer}
    (reply : bridge.Reply (.engine (.call func this args)) w a u) : ∃ v, a = .value v := by
  obtain ⟨s, s', labels, -, -, back⟩ := reply
  replace back : deliverEngine (.call func this args) a s' = some u := back
  cases a with
  | value v => exact ⟨v, rfl⟩
  | _ => cases back

theorem exec_handlerCall {handler global : JSValue} {out : Outcome Unit}
    (run : Exec bridge.meaning ((enterValue (.call handler global [error])).bind fun _ =>
      (freeValue handler).bind fun _ => freeValue global) w h out u) :
    ∃ answer, h.filterMap called? = [(handler, [error])] ∧ h.filterMap callAnswer? = [answer] ∧
      ∀ p, references h p =
        countAt p (some answer) - countAt p (some handler) - countAt p (some global) := by
  obtain ⟨a, s, rest, answers, tail, rfl⟩ := exec_enter run
  obtain ⟨answer, rfl⟩ := reply_call answers
  rw [Prog.bind_ret] at tail
  rcases exec_bind tail with ⟨⟨⟩, x, before, after, first, last, rfl⟩ | ⟨first, -⟩
  · obtain ⟨calls, given⟩ := frees_nothing_called first
    obtain ⟨calls', given'⟩ := frees_nothing_called last
    refine ⟨answer, ?_, ?_, fun p => ?_⟩
    · simp [called?, calls, calls']
    · simp [callAnswer?, given, given']
    · rw [references_cons, references_append, references_freeValue first, references_freeValue last]
      simp only [Item.gained, Item.given, Item.taken, EngineCall.consumed, countAt_none]
      omega
  · cases (exec_freeValue first).1

theorem found_mono {g : Handlers} {early late : BridgeHistory} (found : g.Found (early ++ late)) :
    g.Found early ∧ g.Found late := by
  unfold Handlers.Found FoundAt at found ⊢
  simp only [List.filterMap_append, List.mem_append] at found
  exact ⟨⟨fun x here => found.1 x (Or.inl here), fun x here => found.2 x (Or.inl here)⟩,
    fun x here => found.1 x (Or.inr here), fun x here => found.2 x (Or.inr here)⟩

theorem found_tail {g : Handlers} {item : BridgeItem} (found : g.Found (item :: h)) : g.Found h :=
  (found_mono (show g.Found ([item] ++ h) from found)).2

theorem expected_iff {g : Handlers} (null : g.upper = .null → g.callable .null = false) :
    g.expected = some g.chosen ↔ g.callable g.chosen = true := by
  unfold Handlers.expected Handlers.chosen
  cases isNull : g.upper.isNull with
  | false =>
    rw [if_neg Bool.false_ne_true]
    constructor
    · intro same
      split at same
      · assumption
      · split at same
        next calls => rwa [← Option.some.inj same]
        next => cases same
    · exact fun calls => if_pos calls
  | true =>
    have upper : g.upper = .null := isNull_iff.1 isNull
    have silent : g.callable g.upper = false := by
      rw [upper]
      exact null upper
    rw [if_pos rfl, silent, if_neg Bool.false_ne_true]
    constructor
    · intro same
      split at same
      · assumption
      · cases same
    · exact fun calls => if_pos calls

/-- A reported Error reaches the handler it is meant for, and nothing is left over, exactly if
    the wrapper takes a function, which returns a value without a count and nothing throws. -/
theorem error_dispatched_iff {out : Outcome Unit}
    (run : Exec bridge.meaning (tryToTriggerOnError error) w h out u) {g : Handlers}
    (found : g.Found h) : Dispatched g error h u ↔ g.callable g.chosen = true ∧
      (∀ v ∈ h.filterMap callAnswer?, v.addr? = none) ∧ exceptionLeft w h = .null := by
  have left : u.exception = exceptionLeft w h :=
    path_leftBy (fun _ _ _ => exception_alone) (exec_chain run)
  obtain ⟨a, s, rest, acts, tail, rfl⟩ := exec_prim run
  have global : a = .value (.object w.globalObj) := by
    obtain ⟨x, -, same⟩ := Option.map_eq_some_iff.1 acts
    cases same
    rfl
  subst global
  rw [Prog.bind_ret] at tail
  rcases exec_bind tail with ⟨handler, x, before, after, lookup, last, rfl⟩ | ⟨lookup, -⟩
  · have later : g.Found (before ++ after) := found_tail found
    obtain ⟨here, -⟩ := found_mono later
    obtain ⟨rfl, null, silent, noCall, noAnswer, kept⟩ := lookup_chosen lookup here
    have gained : ∀ p, Item.gained (.prim .getGlobalObject (.value (.object w.globalObj)) s) p =
        countAt p (some (.object w.globalObj)) := by
      intro p
      simp [Item.gained, Item.given, Item.taken, Answer.toValue]
    rw [← left]
    split at last
    next none =>
      obtain ⟨rfl, -, rfl⟩ := exec_ret last
      have absent : g.chosen = .null := isNull_iff.1 none
      constructor
      · intro dispatched
        -- the reference to the global object is lost
        have balanced := dispatched.balanced w.globalObj
        rw [references_cons, gained, List.append_nil, kept, absent] at balanced
        simp [countAt, JSValue.addr?] at balanced
      · rintro ⟨calls, -⟩
        rw [silent absent] at calls
        cases calls
    next present =>
      replace last : Exec bridge.meaning ((enterValue (.call g.chosen (.object w.globalObj) [error])).bind
        fun _ => (freeValue g.chosen).bind fun _ => freeValue (.object w.globalObj)) x after out u := last
      obtain ⟨answer, calls, answers, balance⟩ := exec_handlerCall last
      have net : ∀ p, references (.prim .getGlobalObject (.value (.object w.globalObj)) s ::
          (before ++ after)) p = countAt p (some answer) := by
        intro p
        rw [references_cons, gained, references_append, kept, balance]
        omega
      have made : (Item.prim Prim.getGlobalObject (Answer.value (.object w.globalObj)) s ::
          (before ++ after) : BridgeHistory).filterMap called? = [(g.chosen, [error])] := by
        rw [List.filterMap_cons_none rfl, List.filterMap_append, noCall, calls]
        rfl
      have gave : (Item.prim Prim.getGlobalObject (Answer.value (.object w.globalObj)) s ::
          (before ++ after) : BridgeHistory).filterMap callAnswer? = [answer] := by
        rw [List.filterMap_cons_none rfl, List.filterMap_append, noAnswer, answers]
        rfl
      rw [gave]
      constructor
      · intro dispatched
        refine ⟨?_, ?_, dispatched.exception⟩
        · apply (expected_iff null).1
          have same := dispatched.calls
          rw [made] at same
          cases expected : g.expected with
          | none =>
            rw [expected] at same
            cases same
          | some other =>
            rw [expected] at same
            cases same
            rfl
        · intro v member
          rw [List.mem_singleton.1 member]
          apply uncounted_of_countAt
          intro p
          rw [← net]
          exact dispatched.balanced p
      · rintro ⟨calls, uncounted, exception⟩
        refine ⟨?_, exception, fun p => ?_⟩
        · rw [made, (expected_iff null).2 calls]
          rfl
        · rw [net]
          exact countAt_uncounted (uncounted answer List.mem_cons_self) p
  · obtain ⟨upper, x, _, _, _, ⟨_, dead, _⟩ | ⟨_, lower, dead, _⟩⟩ := exec_findOnError lookup
    all_goals cases dead

/-- Thread 0 reads a property whose getter throws an Error at 3, and has just seen that it is one. -/
def seesError : List BridgeLabel :=
  entersOnGlobal (fun o => .getProperty (some o) (some [])) ++
  ([.tau, .tau, .event (.engine (.alloc 3 (some .error))),
    .event (.engine (.throwValue (.object 3))), .answer (.value .exception), .tau, .tau] : List BridgeLabel)

/-- The handler is a function and answers nothing. -/
theorem function_dispatched : ∃ (c : BridgeConfig) (h : BridgeHistory) (u : World),
    bridge.run seesError (initial 1 fun _ => []) = some c ∧
    Exec bridge.meaning (tryToTriggerOnError (.object 3)) c.state h (.returned ()) u ∧
    (Dispatched ⟨.object 4, .null, (· = .object 4)⟩ (.object 3) h u ↔
      Handlers.callable ⟨.object 4, .null, (· = .object 4)⟩
        (Handlers.chosen ⟨.object 4, .null, (· = .object 4)⟩) = true ∧
      (∀ v ∈ h.filterMap callAnswer?, v.addr? = none) ∧ exceptionLeft c.state h = .null) := by
  have body : ∃ c, bridge.run seesError (initial 1 fun _ => []) = some c ∧
      Can bridge.meaning (tryToTriggerOnError (.object 3)) [] c.state fun _ h _ =>
        h.filterMap (lookup? (ascii "onError")) = [(.object 4, true)] ∧
        h.filterMap (lookup? (ascii "onerror")) = [] := by
    refine ⟨_, rfl, ?_⟩
    refine can_prim rfl ?_
    refine can_enter (a := .value (.object 4))
      ⟨_, _, [.event (.engine (.alloc 4 (some .function)))], rfl, rfl, rfl⟩ ?_
    refine can_enter (a := .value .undefined) ⟨_, _, [], rfl, rfl, rfl⟩ ?_
    refine can_enter (a := .unit) ⟨_, _, [], rfl, rfl, rfl⟩ ?_
    refine can_enter (a := .unit) ⟨_, _, [], rfl, rfl, rfl⟩ ?_
    exact can_ret ⟨rfl, rfl⟩
  obtain ⟨c, ran, ⟨⟩, h, u, run, upper, lower⟩ := body
  exact ⟨c, h, u, ran, run, error_dispatched_iff run
    ⟨foundAt_of_lookups upper (by simp), foundAt_of_lookups lower (by simp)⟩⟩

/-- Without a handler the wrapper calls the undefined value. -/
theorem undefined_called : ¬ ∀ (globalObj : Addr) (jvm : List UInt8 → JavaString)
    (labels : List BridgeLabel) (c : BridgeConfig) (h : BridgeHistory) (u : World) (error : JSValue)
    (next : Answer → Program Answer) (g : Handlers),
    bridge.run labels (initial globalObj jvm) = some c →
    c.control = .native (.prim .getGlobalObject next) → c.state.isError error = true →
    Exec bridge.meaning (tryToTriggerOnError error) c.state h (.returned ()) u → g.Found h →
    Dispatched g error h u := by
  intro complete
  have body : ∃ c next, bridge.run seesError (initial 1 fun _ => []) = some c ∧
      c.control = .native (.prim .getGlobalObject next) ∧ c.state.isError (.object 3) = true ∧
      Can bridge.meaning (tryToTriggerOnError (.object 3)) [] c.state fun _ h _ =>
        h.filterMap (lookup? (ascii "onError")) = [(.undefined, false)] ∧
        h.filterMap (lookup? (ascii "onerror")) = [] ∧
        h.filterMap called? = [(.undefined, [.object 3])] := by
    refine ⟨_, _, rfl, rfl, rfl, ?_⟩
    refine can_prim rfl ?_
    refine can_enter (a := .value .undefined) ⟨_, _, [], rfl, rfl, rfl⟩ ?_
    refine can_enter (a := .value .exception) ⟨_, _, [.event (.engine (.alloc 4 (some .error))),
      .event (.engine (.throwValue (.object 4)))], rfl, rfl, rfl⟩ ?_
    refine can_enter (a := .unit) ⟨_, _, [], rfl, rfl, rfl⟩ ?_
    exact can_ret ⟨rfl, rfl, rfl⟩
  obtain ⟨c, next, ran, running, isError, ⟨⟩, h, u, run, upper, lower, calls⟩ := body
  have found : Handlers.Found ⟨.undefined, .undefined, fun _ => false⟩ h :=
    ⟨foundAt_of_lookups upper (by simp), foundAt_of_lookups lower (by simp)⟩
  have dispatched := complete 1 _ _ c h u _ next _ ran running isError run found
  cases calls.symm.trans dispatched.calls

end Dispatch
end QuickJSBridge
