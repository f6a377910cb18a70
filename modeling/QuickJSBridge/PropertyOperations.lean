import QuickJSBridge.PropertyStore

/- The operations of the wrapper on the properties of objects, and calls of them from Java: what
   they do to the objects somebody holds on to. -/
namespace QuickJSBridge
open HostProgram ReentrantMachine ScriptObjects

section Marshalling
variable {roots : Addr → Prop} {spared : JSString → Prop} {s s' : World × Objects} {env : JNIEnv}
  {h : History (World × Objects) Prim ForeignCall Answer}

def Converted (o : Option JavaObject) (c : JSValue) : Prop :=
  match o with
  | none => c = .undefined
  | some (.string s) => match newStringLen (ModifiedUtf8.encode s) with
    | some text => ∃ p, c = .string p text
    | none => c = .exception
  | some (.double d) => c = newFloat64 d
  | some (.integer n) => c = .int n
  | some (.long n) =>
    if maxSafeInteger < n.toInt ∨ n.toInt < -maxSafeInteger then ∃ p, c = .bigInt p n.toInt
    else c = newInt64 n
  | some (.boolean b) => c = .bool b
  | some (.handle _ _ p _) => c = .object p
  | some (.callFunction _) => ∃ p, c = .object p
  | some (.other _) => c = .exception

theorem converted_toJSValue {w u : World} {calls : BridgeHistory} {o : Option JavaObject} {c : JSValue}
    (run : Exec bridge.meaning (toJSValue env o) w calls (.returned c) u) : Converted o c := by
  cases o with
  | none =>
    obtain ⟨-, same, -⟩ := exec_ret run
    cases same
    rfl
  | some o =>
    cases o with
    | string text =>
      obtain ⟨a, v, rest, acts, tail, -⟩ := exec_prim run
      cases acts
      obtain ⟨a, x, rest', reply, last, -⟩ := exec_enter tail
      obtain ⟨-, result, -⟩ := exec_ret last
      cases result
      unfold Converted
      rcases reply_newString reply with ⟨p, string, made, rfl⟩ | ⟨failed, rfl⟩
      · replace made : newStringLen (ModifiedUtf8.encode text) = some string := made
        simp only [made]
        exact ⟨p, rfl⟩
      · replace failed : newStringLen (ModifiedUtf8.encode text) = none := failed
        simp only [failed]
        rfl
    | long n =>
      obtain ⟨a, v, rest, acts, tail, -⟩ := exec_prim run
      rw [Prog.bind_ret] at tail
      unfold Converted
      dsimp only
      split at tail
      next large =>
        obtain ⟨a, x, rest', reply, last, -⟩ := exec_enter tail
        obtain ⟨p, rfl⟩ := reply_newBigInt64 reply
        obtain ⟨-, result, -⟩ := exec_ret last
        cases result
        rw [if_pos large]
        exact ⟨p, rfl⟩
      next small =>
        obtain ⟨-, result, -⟩ := exec_ret tail
        cases result
        rw [if_neg small]
    | callFunction f =>
      obtain ⟨a, v, rest, reply, tail, -⟩ := exec_enter run
      obtain ⟨p, rfl⟩ := reply_newCallbackFunction reply
      obtain ⟨b, x, rest', hashes, tail', -⟩ := exec_prim tail
      obtain ⟨b', y, rest'', stores, last, -⟩ := exec_prim tail'
      obtain ⟨-, result, -⟩ := exec_ret last
      cases result
      exact ⟨p, rfl⟩
    | _ =>
      obtain ⟨a, v, rest, acts, tail, -⟩ := exec_prim run
      obtain ⟨-, result, -⟩ := exec_ret tail
      cases result
      rfl

def MadeFor (w : World) (o : Option JavaObject) (c : JSValue) : Prop :=
  ∀ f, o = some (.callFunction f) → ∀ p, c = .object p →
    w.registry.callbackAt p = some ⟨f.hashCode, f⟩

theorem madeFor_other {o : Option JavaObject} {w : World} {c : JSValue}
    (other : Wrapper.isCallFunction o = false) : MadeFor w o c := by
  intro f same
  rw [same] at other
  cases other

theorem exec_callback {f : JSCallFunction} {c : JSValue}
    (run : Exec (stored roots) (toJSValue env (some (.callFunction f))) s h (.returned c) s') :
    ∃ p, c = .object p ∧ s'.1.registry.callbackAt p = some ⟨f.hashCode, f⟩ ∧ Untouched roots spared s s' ∧
      Fresh roots s.2.store p := by
  obtain ⟨a, t, rest, reply, tail, -⟩ := exec_enter run
  obtain ⟨p, rfl⟩ := reply_newCallbackFunction (reply_stored reply)
  obtain ⟨b, u, rest', hashes, tail', -⟩ := exec_prim tail
  obtain ⟨b', u', rest'', stores, last, -⟩ := exec_prim tail'
  obtain ⟨-, result, rfl⟩ := exec_ret last
  cases result
  replace reply : engineReply roots .newCallbackFunction s (.value (.object p)) t := reply
  obtain ⟨⟨⟨st₁, o, keeps, empty, unknown, made⟩, atoms⟩, functions⟩ := reply.2 rfl
  have keepsAll : Keeps roots s.2.store t.2.store := by
    rw [made]
    exact keeps.trans (keeps_new o empty)
  obtain ⟨hashed, same⟩ := acts_stored hashes
  have answer : .int f.hashCode = b := congrArg Prod.fst (Option.some.inj hashed)
  have world : t.1 = u.1 := congrArg Prod.snd (Option.some.inj hashed)
  subst answer
  obtain ⟨done, after⟩ := acts_stored stores
  have registered : s'.1.registry.callbackAt =
      Function.update t.1.registry.callbackAt p (some ⟨f.hashCode, f⟩) := by
    rw [registry_exec done, world]
    rfl
  refine ⟨p, rfl, ?_, ⟨?_, ?_, ?_⟩, fresh_empty keeps empty⟩
  · rw [registered, Function.update_self]
  · rw [after, same]
    exact keepsAll
  · intro q refers
    have other : q ≠ p := by
      rintro rfl
      exact unknown (keeps.refers refers)
    rw [registered, Function.update_of_ne other]
    exact functions q (Or.inr ⟨keepsAll.refers refers, Or.inl refers⟩)
  · intro n _ there
    rw [after, same] at there
    exact (atoms n there).resolve_right id

theorem exec_converted {o : Option JavaObject} {c : JSValue}
    (run : Exec (stored roots) (toJSValue env o) s h (.returned c) s') :
    Converted o c ∧ MadeFor s'.1 o c ∧ Untouched roots spared s s' ∧
      (Wrapper.isCallFunction o = true → ∀ p, c = .object p → Fresh roots s.2.store p) := by
  refine ⟨converted_toJSValue (exec_stored run), ?_⟩
  cases o with
  | none =>
    obtain ⟨-, -, rfl⟩ := exec_ret run
    exact ⟨madeFor_other rfl, .refl _, nofun⟩
  | some o =>
    cases o with
    | string text =>
      obtain ⟨a, t, rest, acts, tail, -⟩ := exec_prim run
      obtain ⟨b, u, rest', reply, last, -⟩ := exec_enter tail
      obtain ⟨-, -, rfl⟩ := exec_ret last
      have kept : Untouched roots spared t s' :=
        @answered_aside _ _ _ _ (.newString _) _ (fun _ => rfl) rfl (fun _ _ _ kept => kept) reply
      exact ⟨madeFor_other rfl, (untouched_acts acts nofun).trans kept, nofun⟩
    | long n =>
      obtain ⟨a, t, rest, acts, tail, -⟩ := exec_prim run
      have asked : Untouched roots spared s t := untouched_acts acts nofun
      rw [Prog.bind_ret] at tail
      split at tail
      · obtain ⟨b, u, rest', reply, last, -⟩ := exec_enter tail
        obtain ⟨-, -, rfl⟩ := exec_ret last
        have kept : Untouched roots spared t s' :=
          @answered_aside _ _ _ _ (.newBigInt64 n) _ (fun _ => rfl) rfl (fun _ _ _ kept => kept) reply
        exact ⟨madeFor_other rfl, asked.trans kept, nofun⟩
      · obtain ⟨-, -, rfl⟩ := exec_ret tail
        exact ⟨madeFor_other rfl, asked, nofun⟩
    | callFunction f =>
      obtain ⟨p, rfl, made, kept, fresh⟩ := exec_callback run
      refine ⟨?_, kept, ?_⟩
      · intro g same q here
        cases same
        cases here
        exact made
      · intro _ q here
        cases here
        exact fresh
    | _ =>
      obtain ⟨a, t, rest, acts, tail, -⟩ := exec_prim run
      obtain ⟨-, -, rfl⟩ := exec_ret tail
      exact ⟨madeFor_other rfl, untouched_acts acts nofun, nofun⟩

def Shown (c : JSValue) (o : Option JavaObject) : Prop :=
  match c with
  | .string _ s => ∃ bytes text, stringToCString s = some bytes ∧ o = some (.string text) ∧
      ∀ text', ModifiedUtf8.decode (cString bytes) = some text' → text = text'
  | .bool b => o = some (.boolean b)
  | .int n => o = some (.integer n)
  | .bigInt _ n => o = some (.long (.ofInt n))
  | .float64 d => o = some (if d.isInteger then .long d.toInt64 else .double d)
  | .object p => ∃ id cls objPointer, o = some (.handle id cls p objPointer)
  | _ => o = none

theorem exec_valueOf {o : JavaObject} {out : Outcome (Option JavaObject)}
    (run : Exec (stored roots) (askJava (.valueOf env o)) s h out s') :
    out = .returned (some o) ∧ s' = s := by
  obtain ⟨a, ⟨w, st⟩, rest, acts, tail, -⟩ := exec_prim run
  obtain ⟨done, same⟩ := acts_stored acts
  cases done
  cases same
  obtain ⟨-, rfl, rfl⟩ := exec_ret tail
  exact ⟨rfl, rfl⟩

theorem untouched_freeValue {v : JSValue} {out : Outcome Unit}
    (run : Exec (stored roots) (freeValue v) s h out s') : Untouched roots spared s s' := by
  unfold freeValue at run
  split at run
  · obtain ⟨-, -, rfl⟩ := exec_ret run
    exact .refl _
  · obtain ⟨a, t, rest, reply, tail, -⟩ := exec_enter run
    obtain ⟨-, -, rfl⟩ := exec_ret tail
    exact @answered_aside _ _ _ _ (.freeValue v) _ (fun _ => rfl) rfl (fun _ _ _ kept => kept) reply

theorem exec_newObject {cls : HandleClass} {thisObj : JSValue} {p : Addr} {borrowed : Bool}
    {o : Option JavaObject}
    (run : Exec (stored roots) (askJava (.newObject env cls thisObj p borrowed)) s h (.returned o) s') :
    (∃ id, o = some (.handle id cls p thisObj.pointer)) ∧ Untouched roots spared s s' := by
  obtain ⟨a, ⟨w, st⟩, rest, acts, tail, -⟩ := exec_prim run
  have kept : Untouched roots spared s (w, st) := untouched_acts acts nofun
  obtain ⟨done, -⟩ := acts_stored acts
  cases done
  obtain ⟨-, result, rfl⟩ := exec_ret tail
  cases result
  exact ⟨⟨_, rfl⟩, kept⟩

theorem exec_newHandle {thisObj : JSValue} {p : Addr} {borrowed : Bool} {o : Option JavaObject}
    (run : Exec (stored roots) (newHandle env thisObj (.object p) borrowed) s h (.returned o) s') :
    (∃ id cls objPointer, o = some (.handle id cls p objPointer)) ∧ Untouched roots spared s s' := by
  obtain ⟨a, t, rest, acts, tail, -⟩ := exec_prim run
  have asked : Untouched roots spared s t := untouched_acts acts nofun
  rw [Prog.bind_ret] at tail
  split at tail
  · obtain ⟨⟨id, rfl⟩, made⟩ := exec_newObject tail
    exact ⟨⟨_, _, _, rfl⟩, asked.trans made⟩
  · obtain ⟨b, u, rest', reply, last, -⟩ := exec_enter tail
    have kept : Untouched roots spared t u :=
      @answered_aside _ _ _ _ (.isArray (.object p)) _ (fun _ => rfl) rfl (fun _ _ _ kept => kept) reply
    rw [Prog.bind_ret] at last
    split at last
    · obtain ⟨⟨id, rfl⟩, made⟩ := exec_newObject last
      exact ⟨⟨_, _, _, rfl⟩, (asked.trans kept).trans made⟩
    · obtain ⟨⟨id, rfl⟩, made⟩ := exec_newObject last
      exact ⟨⟨_, _, _, rfl⟩, (asked.trans kept).trans made⟩

def handleClass : ObjectClass → HandleClass
  | .function => .jsFunction
  | .array | .arrayProxy | .revokedProxy => .jsArray
  | _ => .jsObject

theorem handleClass_function {c : ObjectClass} : handleClass c = .jsFunction ↔ c = .function := by
  cases c <;> decide

theorem handleClass_array {w : World} {v : JSValue} {c : ObjectClass} (is : w.classOf v = some c) :
    handleClass c = .jsArray ↔ w.isArray v ≠ 0 := by
  unfold World.isArray
  rw [is]
  cases c <;> decide

theorem exec_handleClass {thisObj : JSValue} {p : Addr} {borrowed : Bool} {o : Option JavaObject}
    {cls : HandleClass}
    (steady : ∀ item ∈ h, (item.after.1.classOf (.object p)).map handleClass = some cls)
    (run : Exec (stored roots) (newHandle env thisObj (.object p) borrowed) s h (.returned o) s') :
    ∃ id objPointer, o = some (.handle id cls p objPointer) := by
  have made : ∀ {cls thisObj s h}, Exec (stored roots)
      (askJava (.newObject env cls thisObj p borrowed)) s h (.returned o) s' →
      ∃ id objPointer, o = some (.handle id cls p objPointer) := by
    intro cls thisObj s h run
    obtain ⟨⟨id, rfl⟩, -⟩ := @exec_newObject _ (fun _ => False) _ _ _ _ _ _ _ _ _ run
    exact ⟨_, _, rfl⟩
  obtain ⟨a, t, rest, acts, tail, rfl⟩ := exec_prim run
  obtain ⟨asked, -⟩ := acts_stored acts
  have now : (t.1.classOf (.object p)).map handleClass = some cls := steady _ List.mem_cons_self
  obtain ⟨c, is, mapped⟩ := Option.map_eq_some_iff.1 now
  replace asked : (if s.1.alive (.object p) then some (Answer.bool (s.1.isFunction (.object p)), s.1)
      else none) = some (a, t.1) := asked
  replace asked := of_ite_some asked
  rw [Option.some.injEq, Prod.mk.injEq] at asked
  obtain ⟨rfl, same⟩ := asked
  rw [same] at tail
  rw [Prog.bind_ret] at tail
  by_cases function : c = .function
  · simp only [Answer.toBool, World.isFunction, is, function, decide_true, if_true] at tail
    rw [handleClass_function.2 function] at mapped
    cases mapped
    exact made tail
  · have other : t.1.isFunction (.object p) = false := by simp [World.isFunction, is, function]
    simp only [Answer.toBool, other, Bool.false_eq_true, if_false] at tail
    obtain ⟨b, u, rest', reply, last, rfl⟩ := exec_enter tail
    have later : (u.1.classOf (.object p)).map handleClass = some cls :=
      steady _ (List.mem_cons_of_mem _ List.mem_cons_self)
    obtain ⟨d, is', mapped'⟩ := Option.map_eq_some_iff.1 later
    obtain ⟨x, y, labels, -, -, back⟩ := reply_stored reply
    have isArray : b = .int (u.1.isArray (.object p)) := by
      replace back : deliverEngine (.isArray (.object p)) b y = some u.1 := back
      cases b with
      | int n =>
        replace back : (if n = y.isArray (.object p) ∧ (n = -1 → y.exception ≠ .null) then some y
          else none) = some u.1 := back
        obtain ⟨⟨rfl, -⟩, same⟩ := Option.ite_none_right_eq_some.1 back
        cases same
        rfl
      | _ => cases back
    rw [Prog.bind_ret, isArray] at last
    replace last : Exec (stored roots) (if u.1.isArray (.object p) ≠ 0 then
        askJava (.newObject env .jsArray .undefined p borrowed)
        else askJava (.newObject env .jsObject .undefined p borrowed))
        u rest' (.returned o) s' := last
    by_cases array : u.1.isArray (.object p) ≠ 0
    · rw [if_pos array] at last
      rw [(handleClass_array is').2 array] at mapped'
      cases mapped'
      exact made last
    · rw [if_neg array] at last
      have plain : cls = .jsObject := by
        cases cls with
        | jsObject => rfl
        | jsArray => exact absurd ((handleClass_array is').1 mapped') array
        | jsFunction => exact absurd (handleClass_function.1 mapped) function
      subst plain
      exact made last

theorem exec_handleShown {thisObj : JSValue} {p : Addr} {o : Option JavaObject} {cls : HandleClass}
    (steady : ∀ item ∈ h, (item.after.1.classOf (.object p)).map handleClass = some cls)
    (run : Exec (stored roots) (toJavaObject env thisObj (.object p) true) s h (.returned o) s') :
    ∃ id objPointer, o = some (.handle id cls p objPointer) := by
  rcases exec_bind run with ⟨handle, t, making, keeping, first, second, rfl⟩ | ⟨-, dead⟩
  · have made := exec_handleClass (fun item here => steady item (List.mem_append_left _ here)) first
    rcases exec_bind second with ⟨_, u, registering, last, third, fourth, -⟩ | ⟨-, dead⟩
    · obtain ⟨-, result, -⟩ := exec_ret fourth
      cases result
      exact made
    · cases dead
  · cases dead

theorem exec_shown {thisObj c : JSValue} {o : Option JavaObject}
    (run : Exec (stored roots) (toJavaObject env thisObj c true) s h (.returned o) s') :
    Shown c o ∧ Untouched roots spared s s' := by
  cases c with
  | string p string =>
    obtain ⟨a, t, rest, reply, tail, -⟩ := exec_enter run
    have kept : Untouched roots spared s t :=
      @answered_aside _ _ _ _ (.toCString (.string p string)) _ (fun _ => rfl) rfl
        (fun _ _ _ kept => kept) reply
    obtain ⟨u, v, labels, -, -, back⟩ := reply_stored reply
    cases deliver_toCString back
    rw [Prog.bind_ret] at tail
    cases written : stringToCString string with
    | none =>
      rw [written] at tail
      obtain ⟨-, dead, -⟩ := exec_crash tail
      cases dead
    | some bytes =>
      rw [written] at tail
      obtain ⟨b, ⟨w, st⟩, rest', acts, last, -⟩ := exec_prim tail
      have copied : Untouched roots spared t (w, st) := untouched_acts acts nofun
      obtain ⟨made, -⟩ := acts_stored acts
      cases made
      replace last : Exec (stored roots) ((freeValue (.string p string)).bind fun _ => .ret (some
          (.string ((ModifiedUtf8.decode (cString bytes)).getD (t.1.jvm (cString bytes))))))
          (t.1, st) rest' (.returned o) s' := last
      rcases exec_bind last with ⟨_, x, freeing, done, free, ending, -⟩ | ⟨-, dead⟩
      · obtain ⟨-, result, rfl⟩ := exec_ret ending
        cases result
        refine ⟨⟨bytes, _, written, rfl, ?_⟩, (kept.trans copied).trans (untouched_freeValue free)⟩
        intro text decoded
        rw [decoded]
        rfl
      · cases dead
  | object p =>
    rcases exec_bind run with ⟨handle, t, making, keeping, first, second, -⟩ | ⟨-, dead⟩
    · obtain ⟨shown, made⟩ := exec_newHandle first
      rcases exec_bind second with ⟨_, u, registering, last, third, fourth, -⟩ | ⟨-, dead⟩
      · obtain ⟨-, result, rfl⟩ := exec_ret fourth
        cases result
        obtain ⟨a, v, rest, counts, tail, -⟩ := exec_prim third
        have asked : Untouched roots spared t v := untouched_acts counts nofun
        rw [Prog.bind_ret] at tail
        refine ⟨shown, (made.trans asked).trans ?_⟩
        split at tail
        · exact untouched_freeValue tail
        · obtain ⟨b, x, rest', inserts, done, -⟩ := exec_prim tail
          obtain ⟨-, -, rfl⟩ := exec_ret done
          exact untouched_acts inserts nofun
      · cases dead
    · cases dead
  | float64 d =>
    have made : toJavaObject env thisObj (.float64 d) true =
        askJava (.valueOf env (if d.isInteger then .long d.toInt64 else .double d)) := by
      simp only [toJavaObject]
      split <;> rfl
    rw [made] at run
    obtain ⟨result, rfl⟩ := exec_valueOf run
    cases result
    exact ⟨rfl, .refl _⟩
  | bool b =>
    obtain ⟨result, rfl⟩ := exec_valueOf run
    cases result
    exact ⟨rfl, .refl _⟩
  | int n =>
    obtain ⟨result, rfl⟩ := exec_valueOf run
    cases result
    exact ⟨rfl, .refl _⟩
  | bigInt p n =>
    obtain ⟨result, rfl⟩ := exec_valueOf run
    cases result
    exact ⟨rfl, .refl _⟩
  | _ =>
    obtain ⟨-, result, rfl⟩ := exec_ret run
    cases result
    exact ⟨rfl, .refl _⟩

end Marshalling

section Operations
variable {roots : Addr → Prop} {spared : JSString → Prop} {s s' : World × Objects} {env : JNIEnv}
  {h : History (World × Objects) Prim ForeignCall Answer} {pointer : Addr} {name : JavaString}
  {k : PropertyKey}

theorem exec_text {text : JavaString} {R : Type} {f : List UInt8 → Program R} {out : Outcome R}
    (run : Exec (stored roots) ((getStringUTFChars env text).bind f) s h out s') :
    ∃ item rest, h = item :: rest ∧
      Exec (stored roots) (f (ModifiedUtf8.encode text)) s rest out s' := by
  obtain ⟨a, ⟨w, st⟩, rest, acts, tail, rfl⟩ := exec_prim run
  obtain ⟨done, same⟩ := acts_stored acts
  cases done
  cases same
  exact ⟨_, rest, rfl, tail⟩

theorem exec_supported {o : Option JavaObject} {c : JSValue} (can : supported o = true)
    (run : Exec (stored roots) (toJSValue env o) s h (.returned c) s') :
    s'.1.javaException = s.1.javaException :=
  (exec_silent (silent_toJSValue can env) (exec_stored run)).1

theorem exec_quietly {thisObj c : JSValue} {out : Outcome (Option JavaObject)}
    (run : Exec (stored roots) (toJavaObject env thisObj c true) s h out s') :
    s'.1.javaException = s.1.javaException := by
  have silent : (toJavaObject env thisObj c true).Within (fun c => c.throws = false) IsCalm := by
    apply Prog.within_mono (makes_toJavaObject env thisObj c true) _ fun _ => calm_marshalling
    intro c makes
    cases c <;> first | rfl | cases makes
  exact (exec_silent silent (exec_stored run)).1

theorem exec_found {f : Found JSValue} {o : Option JavaObject}
    (named : propertyKey s.2.atoms (ModifiedUtf8.encode name) = some k)
    (found : Finds arrayLength s.2.store pointer k f) (ordinary : f ≠ .code)
    (value : foundValue f ≠ .exception)
    (run : Exec (stored roots) (Wrapper.getProperty env pointer name) s h (.returned o) s') :
    ∃ t later, (∀ item ∈ later, item ∈ h) ∧ Untouched roots spared s t ∧
      t.1.javaException = s.1.javaException ∧ Exec (stored roots)
        (toJavaObject env (.object pointer) (foundValue f) true) t later (.returned o) s' := by
  obtain ⟨item, rest, rfl, tail⟩ := exec_text run
  obtain ⟨a, t, later, reply, last, rfl⟩ := exec_enter tail
  have reads : (EngineCall.getPropertyStr (.object pointer) (ModifiedUtf8.encode name)).access s.2.atoms =
      some (.get pointer k) := by
    simp only [EngineCall.access, named, Option.map_some]
  obtain ⟨rfl, untouched, agenda⟩ := @answered_get _ spared _ _ _ _ _ _ _ reads found ordinary reply
  have sound : (foundValue f).isException = false := by
    rw [JSValue.isException, decide_eq_false value]
  rw [Prog.bind_ret] at last
  simp only [Answer.toValue, sound, Bool.false_eq_true, if_false] at last
  refine ⟨t, later, ?_, untouched, congrArg Agenda.javaException agenda, last⟩
  intro item member
  exact List.mem_cons_of_mem _ (List.mem_cons_of_mem _ member)

theorem exec_getProperty {f : Found JSValue} {o : Option JavaObject}
    (named : propertyKey s.2.atoms (ModifiedUtf8.encode name) = some k)
    (found : Finds arrayLength s.2.store pointer k f) (ordinary : f ≠ .code)
    (value : foundValue f ≠ .exception)
    (run : Exec (stored roots) (Wrapper.getProperty env pointer name) s h (.returned o) s') :
    Shown (foundValue f) o ∧ Untouched roots spared s s' ∧ s'.1.javaException = s.1.javaException := by
  obtain ⟨t, later, -, untouched, quiet, last⟩ := exec_found named found ordinary value run
  obtain ⟨shown, after⟩ := exec_shown last
  exact ⟨shown, untouched.trans after, (exec_quietly last).trans quiet⟩

/-- The texts to be spared but for the one the name encodes. -/
def Sparing (spared : JSString → Prop) (name : List UInt8) (n : JSString) : Prop :=
  spared n ∧ decodedKey name ≠ some (.name n)

theorem aside_sparing {bytes : List UInt8} (aside : Aside spared bytes) :
    Aside (Sparing spared bytes) bytes := by
  by_cases plain : decodedKey bytes = some (.name (latinText bytes))
  · exact Or.inl plain
  · exact Or.inr ⟨aside.resolve_left plain, plain⟩

theorem Untouched.sparing {bytes : List UInt8} {s t : World × Objects}
    (untouched : Untouched roots spared s t) :
    Untouched roots (Sparing spared bytes) s t :=
  ⟨untouched.objects, untouched.functions, fun n aside => untouched.atoms n aside.1⟩

structure TakesAny (st : Objects) (p : Addr) (name : List UInt8) : Prop where
  decodes : (decodedKey name).isSome = true
  stores : ∀ k, NamedBy st.atoms name k → ∀ c, ∃ o, Writes arrayLength st.store p k c (.stored o)

def NewName (spared : JSString → Prop) (bytes : List UInt8) (s s' : World × Objects) : Prop :=
  ∀ n, spared n → s'.2.atoms n = true →
    s.2.atoms n = true ∨ ∀ key, NamedBy s'.2.atoms bytes key → key = .name n

theorem untouched_prepareProperty {bytes : List UInt8} {o : Option JavaObject} {c : JSValue}
    {s₀ : World × Objects} (untouched : Untouched roots spared s₀ s)
    (made : MadeFor s.1 o c)
    (fresh : Wrapper.isCallFunction o = true → ∀ p, c = .object p → Fresh roots s₀.2.store p)
    (run : Exec (stored roots) (Wrapper.prepareProperty bytes o c) s h (.returned ()) s') :
    Untouched roots (Sparing spared bytes) s₀ s' ∧ NewName spared bytes s₀ s' ∧ MadeFor s'.1 o c ∧
      s'.1.javaException = s.1.javaException := by
  have still : ∀ {t : World × Objects}, Untouched roots spared s₀ t →
      Untouched roots (Sparing spared bytes) s₀ t ∧ NewName spared bytes s₀ t :=
    fun kept => ⟨kept.sparing, fun n spares there => Or.inl (kept.atoms n spares there)⟩
  have duplicates : Wrapper.isCallFunction o = false →
      Exec (stored roots) (act (.dupValue c)) s h (.returned ()) s' →
      Untouched roots (Sparing spared bytes) s₀ s' ∧ NewName spared bytes s₀ s' ∧ MadeFor s'.1 o c ∧
        s'.1.javaException = s.1.javaException := by
    intro other run
    obtain ⟨a, t, rest, acts, tail, -⟩ := exec_prim run
    obtain ⟨-, -, rfl⟩ := exec_ret tail
    have agenda := agenda_exec (acts_stored acts).1
    obtain ⟨kept, new⟩ := still (untouched.trans (untouched_acts acts nofun))
    exact ⟨kept, new, madeFor_other other, congrArg Agenda.javaException agenda⟩
  cases o with
  | none => exact duplicates rfl run
  | some o =>
    cases o with
    | handle id cls p objPointer => exact duplicates rfl run
    | callFunction f =>
      obtain ⟨a, t, rest, reply, tail, -⟩ := exec_enter run
      obtain ⟨-, -, rfl⟩ := exec_ret tail
      have quiet := reply_quiet rfl (reply_stored reply)
      replace reply : engineReply roots (.defineName c bytes) s a s' := reply
      obtain ⟨⟨effect, atoms⟩, functions⟩ := reply.2 rfl
      have keeps : Keeps roots s₀.2.store s'.2.store := by
        cases c with
        | object p =>
          obtain ⟨x, named⟩ := effect
          exact (keeps_beside untouched.objects (fresh rfl p rfl) x).trans named
        | _ => exact untouched.objects.trans effect
      -- the atom of the name is made here, where there is none of its bytes
      have new : ∀ n, spared n → s'.2.atoms n = true → s.2.atoms n = true ∨
          (decodedKey bytes = some (.name n) ∧ ∀ key, NamedBy s'.2.atoms bytes key → key = .name n) := by
        intro n spares there
        rcases atoms n there with known | named
        · exact Or.inl known
        · replace named : propertyKey s.2.atoms bytes = some (.name n) := named
          by_cases known : s.2.atoms n = true
          · exact Or.inl known
          · right
            have decoded : decodedKey bytes = some (.name n) := by
              rcases namedBy_key named with ⟨-, latin, same⟩ | decoded
              · cases same
                exact absurd latin known
              · exact decoded
            refine ⟨decoded, ?_⟩
            rintro key (⟨letter, latin, rfl⟩ | same)
            · rcases atoms _ latin with before | again
              · unfold propertyKey at named
                rw [if_pos (by simp [letter, before])] at named
                exact Option.some.inj named
              · exact Option.some.inj (again.symm.trans named)
            · exact Option.some.inj (same.symm.trans decoded)
      refine ⟨⟨keeps, ?_, ?_⟩, ?_, ?_, congrArg Agenda.javaException quiet⟩
      · intro q refers
        rw [functions q (Or.inr ⟨keeps.refers refers, Or.inl (untouched.objects.refers refers)⟩)]
        exact untouched.functions q refers
      · intro n spares there
        rcases new n spares.1 there with known | ⟨decoded, -⟩
        · exact untouched.atoms n spares.1 known
        · exact absurd decoded spares.2
      · intro n spares there
        rcases new n spares there with known | ⟨-, only⟩
        · exact Or.inl (untouched.atoms n spares known)
        · exact Or.inr only
      · intro g same p here
        rw [functions p (Or.inl ⟨by rw [here]; exact List.mem_singleton_self _, nofun⟩)]
        exact made g same p here
    | _ =>
      obtain ⟨-, -, rfl⟩ := exec_ret run
      obtain ⟨kept, new⟩ := still untouched
      exact ⟨kept, new, made, rfl⟩

structure PropertySet (roots : Addr → Prop) (value : Option JavaObject) (p : Addr) (k : PropertyKey)
    (s s' : World × Objects) (c : JSValue) (o : ObjectData) : Prop where
  converted : Converted value c
  written : Writes arrayLength s.2.store p k c (.stored o)
  made : MadeFor s'.1 value c
  objects : Keeps roots (Function.update s.2.store p (some o)) s'.2.store
  functions : ∀ q, Refers roots s.2.store (.object q) →
    Refers roots (Function.update s.2.store p (some o)) (.object q) →
    s'.1.registry.callbackAt q = s.1.registry.callbackAt q

/-- Where it is written under a name, the name stays with the property, and of the texts to be
    spared no other has a new atom. -/
structure NamedSet (roots : Addr → Prop) (spared : JSString → Prop) (value : Option JavaObject)
    (p : Addr) (name : List UInt8) (k : PropertyKey) (s s' : World × Objects) (c : JSValue)
    (o : ObjectData) : Prop extends PropertySet roots value p k s s' c o where
  named : NamedBy s.2.atoms name k
  settled : Settled roots s'.2 name k
  atoms : ∀ n, spared n → s'.2.atoms n = true → s.2.atoms n = true ∨ k = .name n

theorem propertySet_of_writes {value : Option JavaObject} {c : JSValue} {o : ObjectData}
    {t : World × Objects} (held : roots pointer) (converted : Converted value c)
    (made : MadeFor t.1 value c) (untouched : Untouched roots spared s t)
    (written : Writes arrayLength s.2.store pointer k c (.stored o))
    (after : Untouched roots spared (t.1, t.2.update pointer o) s') :
    PropertySet roots value pointer k s s' c o := by
  obtain ⟨x, here, rfl, -⟩ := stored_put written
  have keeps : Keeps roots (Function.update s.2.store pointer (some (x.put k c)))
      (Function.update t.2.store pointer (some (x.put k c))) := keeps_update untouched.objects here rfl
  refine ⟨converted, written, ?_, keeps.trans after.objects, ?_⟩
  · rintro f same q rfl
    have own : (x.put k (.object q)).own k = some (.data (.object q) true) := Function.update_self k _ x.own
    rw [after.functions q ⟨pointer, _, k, true, .root held, Function.update_self pointer _ t.2.store, own⟩]
    exact made f same q rfl
  · intro q before later
    rw [after.functions q (keeps.refers later)]
    exact untouched.functions q before

theorem namedSet_of_writes {value : Option JavaObject} {c : JSValue} {o : ObjectData}
    {bytes : List UInt8} {t : World × Objects} (held : roots pointer) (aside : Aside spared bytes)
    (untouched : Untouched roots (Sparing spared bytes) s t) (new : NewName spared bytes s t)
    (named : propertyKey t.2.atoms bytes = some k) (set : PropertySet roots value pointer k s s' c o)
    (after : Untouched roots spared (t.1, t.2.update pointer o) s') :
    NamedSet roots spared value pointer bytes k s s' c o := by
  obtain ⟨x, here, rfl, -⟩ := stored_put set.written
  have there : t.2.store pointer = some x := untouched.objects pointer x (.root held) here
  refine ⟨set, (namedBy_key named).before untouched (aside_sparing aside),
    (settled_stored held named there).later after aside, ?_⟩
  intro n spares last
  have stored : (t.2.atoms n || ((x.put k c).own (.name n)).isSome) = true := after.atoms n spares last
  by_cases same : k = .name n
  · exact Or.inr same
  · have old : (x.put k c).own (.name n) = x.own (.name n) :=
      Function.update_of_ne (Ne.symm same) _ x.own
    rw [old] at stored
    have known : t.2.atoms n = true := by
      rcases Bool.or_eq_true_iff.1 stored with known | own
      · exact known
      · exact t.2.named pointer x n there own
    exact (new n spares known).imp_right fun only => only k (namedBy_key named)

theorem PropertySet.within {value : Option JavaObject} {c : JSValue} {o : ObjectData}
    {t u : World × Objects} (held : roots pointer) (before : Untouched roots spared s t)
    (written : Writes arrayLength s.2.store pointer k c (.stored o))
    (set : PropertySet roots value pointer k t u c o) (after : Untouched roots spared u s') :
    PropertySet roots value pointer k s s' c o := by
  obtain ⟨x, here, rfl, -⟩ := stored_put written
  have keeps : Keeps roots (Function.update s.2.store pointer (some (x.put k c)))
      (Function.update t.2.store pointer (some (x.put k c))) := keeps_update before.objects here rfl
  refine ⟨set.converted, written, ?_, (keeps.trans set.objects).trans after.objects, ?_⟩
  · rintro f same q rfl
    have own : (x.put k (.object q)).own k = some (.data (.object q) true) := Function.update_self k _ x.own
    have refers : Refers roots (Function.update t.2.store pointer (some (x.put k (.object q)))) (.object q) :=
      ⟨pointer, _, k, true, .root held, Function.update_self pointer _ t.2.store, own⟩
    rw [after.functions q (set.objects.refers refers)]
    exact set.made f same q rfl
  · intro q earlier later
    rw [after.functions q (set.objects.refers (keeps.refers later)),
      set.functions q (before.objects.refers earlier) (keeps.refers later)]
    exact before.functions q earlier

theorem NamedSet.within {value : Option JavaObject} {c : JSValue} {o : ObjectData}
    {bytes : List UInt8} {t u : World × Objects} (held : roots pointer) (aside : Aside spared bytes)
    (before : Untouched roots spared s t) (written : Writes arrayLength s.2.store pointer k c (.stored o))
    (set : NamedSet roots spared value pointer bytes k t u c o) (after : Untouched roots spared u s') :
    NamedSet roots spared value pointer bytes k s s' c o := by
  refine ⟨set.toPropertySet.within held before written after, set.named.before before aside,
    set.settled.later after aside, ?_⟩
  exact fun n spares there => (set.atoms n spares (after.atoms n spares there)).imp_left (before.atoms n spares)

theorem exec_setProperty {value : Option JavaObject} (held : roots pointer)
    (can : supported value = true) (aside : Aside spared (ModifiedUtf8.encode name))
    (takes : TakesAny s.2 pointer (ModifiedUtf8.encode name))
    (run : Exec (stored roots) (Wrapper.setProperty env pointer name value) s h (.returned ()) s') :
    (∃ k c o, NamedSet roots spared value pointer (ModifiedUtf8.encode name) k s s' c o) ∧
    s'.1.javaException = s.1.javaException := by
  obtain ⟨item, rest, -, tail⟩ := exec_text run
  rcases exec_bind tail with ⟨c, t, converting, later, first, second, -⟩ | ⟨-, dead⟩
  · obtain ⟨converted, made, untouched, fresh⟩ := @exec_converted _ spared _ _ _ _ _ _ first
    rcases exec_bind second with ⟨⟨⟩, u, preparing, last, third, fourth, -⟩ | ⟨-, dead⟩
    · obtain ⟨kept, new, named', prepared⟩ := untouched_prepareProperty untouched made fresh third
      obtain ⟨a, v, rest', reply, ending, -⟩ := exec_enter fourth
      obtain ⟨-, -, rfl⟩ := exec_ret ending
      obtain ⟨k, named⟩ := key_of_decoded takes.decodes u.2.atoms
      obtain ⟨o, written⟩ := takes.stores k ((namedBy_key named).before kept (aside_sparing aside)) c
      have writes : (EngineCall.setPropertyStr (.object pointer) (ModifiedUtf8.encode name) c).access
          u.2.atoms = some (.set pointer k c) := by
        simp only [EngineCall.access, named, Option.map_some]
      obtain ⟨-, after, agenda⟩ :=
        @answered_set _ spared _ _ _ _ _ _ _ _ writes (writes_keeps kept.objects held written) reply
      have set := propertySet_of_writes held converted named' kept written after.sparing
      refine ⟨⟨k, c, o, namedSet_of_writes held aside kept new named set after⟩, ?_⟩
      have quiet : s'.1.javaException = u.1.javaException := congrArg Agenda.javaException agenda
      rw [quiet, prepared, exec_supported can first]
    · cases dead
  · cases dead

end Operations

section Clients

/-- Whose native calls these are, what is held on to, the texts nobody else makes atoms of or
    frees the atoms of, and what the client makes sure of in every state of a call. -/
structure Setting where
  thread : ThreadId
  roots : Addr → Prop
  spared : JSString → Prop
  steady : World → Prop

structure LeftAlone (S : Setting) (s s' : World × Objects) : Prop extends Untouched S.roots S.spared s s' where
  same : ∀ n, S.spared n → s'.2.atoms n = s.2.atoms n

theorem LeftAlone.refl {S : Setting} (s : World × Objects) : LeftAlone S s s := ⟨.refl s, fun _ _ => rfl⟩

theorem propertyKey_alone {S : Setting} {s s' : World × Objects} {name : List UInt8} (alone : LeftAlone S s s')
    (aside : Aside S.spared name) : propertyKey s'.2.atoms name = propertyKey s.2.atoms name := by
  rcases aside with plain | aside
  · unfold propertyKey
    rw [plain]
    simp
  · unfold propertyKey
    rw [alone.same _ aside]

def StoredReply (S : Setting) (op : NativeOp) (s : World × Objects) (a : Answer)
    (s' : World × Objects) : Prop :=
  ∃ w st h b u, Meanwhile s.1 w ∧ LeftAlone S s (w, st) ∧ w.javaException = none ∧
    Exec (stored S.roots) (op.program S.thread) (w, st) h (.returned b) u ∧
    (∀ item ∈ h, S.steady item.after.1) ∧ a = seen b u.1 ∧
    s' = ({ u.1 with javaException := none }, u.2)

def storedJava (S : Setting) : Meaning (World × Objects) JavaPrim NativeOp Answer where
  exec c s := some ((javaExec c s.1).1, ((javaExec c s.1).2, s.2))
  reply := StoredReply S

end Clients

section Calls
variable {S : Setting} {s s' : World × Objects} {a : Answer} {pointer : Addr} {name : JavaString}
  {k : PropertyKey} {value : Option JavaObject}

theorem seen_clear {b : Answer} {w : World} (clear : w.javaException = none) : seen b w = b := by
  unfold seen
  rw [clear]

theorem untouched_seen (roots : Addr → Prop) (spared : JSString → Prop) (u : World × Objects) :
    Untouched roots spared u ({ u.1 with javaException := none }, u.2) := untouched_of_callbacks rfl rfl

theorem TakesAny.later {bytes : List UInt8} (takes : TakesAny s.2 pointer bytes) (held : S.roots pointer)
    (aside : Aside S.spared bytes) (untouched : Untouched S.roots S.spared s s') :
    TakesAny s'.2 pointer bytes := by
  refine ⟨takes.decodes, fun k named c => ?_⟩
  obtain ⟨o, written⟩ := takes.stores k (named.before untouched aside) c
  exact ⟨o, writes_keeps untouched.objects held written⟩

theorem reply_set (held : S.roots pointer) (can : supported value = true)
    (aside : Aside S.spared (ModifiedUtf8.encode name))
    (takes : TakesAny s.2 pointer (ModifiedUtf8.encode name))
    (reply : StoredReply S (.setProperty pointer (some name) value) s a s') :
    a = .unit ∧ ∃ k c o,
      NamedSet S.roots S.spared value pointer (ModifiedUtf8.encode name) k s s' c o := by
  obtain ⟨w, st, h, b, u, -, untouched, clear, run, -, rfl, rfl⟩ := reply
  rcases exec_bind run with ⟨⟨⟩, v, before, after, first, last, -⟩ | ⟨-, dead⟩
  · obtain ⟨-, same, rfl⟩ := exec_ret last
    cases same
    have there : TakesAny st pointer (ModifiedUtf8.encode name) := takes.later held aside untouched.toUntouched
    obtain ⟨⟨k, c, o, set⟩, quiet⟩ := exec_setProperty held can aside there first
    have named : NamedBy s.2.atoms (ModifiedUtf8.encode name) k := set.named.before untouched.toUntouched aside
    obtain ⟨o', before⟩ := takes.stores k named c
    cases writes_unique (writes_keeps untouched.objects held before) set.written
    exact ⟨seen_clear (quiet.trans clear), k, c, o,
      set.within held aside untouched.toUntouched before (untouched_seen _ _ u)⟩
  · cases dead

theorem reply_get {f : Found JSValue} (held : S.roots pointer)
    (aside : Aside S.spared (ModifiedUtf8.encode name))
    (settled : Settled S.roots s.2 (ModifiedUtf8.encode name) k)
    (found : Finds arrayLength s.2.store pointer k f) (ordinary : f ≠ .code)
    (sound : foundValue f ≠ .exception)
    (reply : StoredReply S (.getProperty pointer (some name)) s a s') :
    ∃ o, a = .javaReturn o ∧ Shown (foundValue f) o ∧ ∀ p cls, foundValue f = .object p →
      (∀ w, S.steady w → (w.classOf (.object p)).map handleClass = some cls) →
      ∃ id objPointer, o = some (.handle id cls p objPointer) := by
  obtain ⟨w, st, h, b, u, -, untouched, clear, run, steady, rfl, rfl⟩ := reply
  rcases exec_bind run with ⟨o, v, before, after, first, last, rfl⟩ | ⟨-, dead⟩
  · obtain ⟨-, same, rfl⟩ := exec_ret last
    cases same
    have there := finds_keeps untouched.objects held found
    have named : propertyKey st.atoms (ModifiedUtf8.encode name) = some k :=
      (settled.later untouched.toUntouched aside).key
    obtain ⟨shown, -, quiet⟩ := @exec_getProperty _ S.spared _ _ _ _ _ _ _ _ _ named there ordinary sound first
    refine ⟨o, seen_clear (quiet.trans clear), shown, ?_⟩
    intro p cls object kept
    obtain ⟨t, later, within, -, -, showing⟩ :=
      @exec_found _ S.spared _ _ _ _ _ _ _ _ _ named there ordinary sound first
    rw [object] at showing
    apply exec_handleShown _ showing
    intro item here
    exact kept _ (steady item (List.mem_append_left _ (within item here)))
  · cases dead

end Calls

end QuickJSBridge
