import QuickJSBridge.ScriptContexts

/- Writing attributes to the global object, of any values and whatever it makes of them. The entries
   are written one by one, up to the first value of a type that is not supported. Where a write is
   left to code, that may do anything: here it leaves no objects. -/
namespace QuickJSBridge
open HostProgram ReentrantMachine ScriptObjects

section Writes
variable {S : Setting} {s s' : World × Objects} {a : Answer} {p : Addr} {name : JavaString}
  {value : Option JavaObject} {env : JNIEnv}

def thrownFor : Option JavaObject → Option JavaException
  | some (.other className) => some (unsupportedType className)
  | _ => none

theorem exec_thrownFor {roots : Addr → Prop} {c : JSValue}
    {h : History (World × Objects) Prim ForeignCall Answer} (clear : s.1.javaException = none)
    (run : Exec (stored roots) (toJSValue env value) s h (.returned c) s') :
    s'.1.javaException = thrownFor value := by
  have quiet : supported value = true → s'.1.javaException = none :=
    fun can => (exec_supported can run).trans clear
  cases value with
  | none => exact quiet rfl
  | some value =>
    cases value with
    | other className =>
      obtain ⟨a, ⟨w, st⟩, rest, acts, tail, -⟩ := exec_prim run
      obtain ⟨done, -⟩ := acts_stored acts
      cases done
      obtain ⟨-, -, rfl⟩ := exec_ret tail
      rfl
    | _ => exact quiet rfl

theorem exec_unknown {roots : Addr → Prop} {c : JSValue} {q : Addr}
    {h : History (World × Objects) Prim ForeignCall Answer} (function : Wrapper.isCallFunction value = true)
    (run : Exec (stored roots) (toJSValue env value) s h (.returned c) s') (object : c = .object q) :
    ¬ Refers roots s.2.store (.object q) := by
  cases value with
  | none => cases function
  | some value =>
    cases value with
    | callFunction f =>
      obtain ⟨a, t, rest, reply, tail, -⟩ := exec_enter run
      obtain ⟨p, rfl⟩ := reply_newCallbackFunction (reply_stored reply)
      obtain ⟨b, u, rest', hashes, tail', -⟩ := exec_prim tail
      obtain ⟨b', u', rest'', stores, last, -⟩ := exec_prim tail'
      obtain ⟨-, result, -⟩ := exec_ret last
      cases object.symm.trans (Outcome.returned.inj result)
      replace reply : engineReply roots .newCallbackFunction s (.value (.object q)) t := reply
      obtain ⟨⟨⟨st₁, o, keeps, -, unknown, -⟩, -⟩, -⟩ := reply.2 rfl
      exact fun refers => unknown (keeps.refers refers)
    | _ => cases function

theorem reply_attribute (reply : StoredReply S (.setProperty p (some name) value) s a s') :
    ∃ c t b u, Converted value c ∧ Untouched S.roots (Sparing S.spared (ModifiedUtf8.encode name)) s t ∧
      NewName S.spared (ModifiedUtf8.encode name) s t ∧ t.1.javaException = thrownFor value ∧
      (Wrapper.isCallFunction value = true → ∀ q, c = .object q → ¬ Refers S.roots s.2.store (.object q)) ∧
      (stored S.roots).reply (.engine (.setPropertyStr (.object p) (ModifiedUtf8.encode name) c)) t b u ∧
      a = seen .unit u.1 ∧ s' = ({ u.1 with javaException := none }, u.2) ∧
      ∀ st, (stored S.roots).reply (.engine (.setPropertyStr (.object p) (ModifiedUtf8.encode name) c)) t b
        (u.1, st) → StoredReply S (.setProperty p (some name) value) s a (s'.1, st) := by
  obtain ⟨w, st, h, d, x, others, untouched, clear, run, steady, rfl, rfl⟩ := reply
  rcases exec_bind run with ⟨⟨⟩, v, within, after, first, last, rfl⟩ | ⟨-, dead⟩
  · obtain ⟨rfl, same, rfl⟩ := exec_ret last
    cases same
    rcases exec_bind first with ⟨bytes, y, naming, rest, names, tail, rfl⟩ | ⟨-, dead⟩
    · obtain ⟨b, ⟨w', st'⟩, later, acts, ending, rfl⟩ := exec_prim names
      obtain ⟨done, same⟩ := acts_stored acts
      cases done
      cases same
      obtain ⟨rfl, same, rfl⟩ := exec_ret ending
      cases same
      rcases exec_bind tail with ⟨c, t, converting, rest, converts, more, rfl⟩ | ⟨-, dead⟩
      · obtain ⟨converted, made, kept, fresh⟩ := @exec_converted _ S.spared _ _ _ _ _ _ converts
        rcases exec_bind more with ⟨⟨⟩, u, preparing, rest, prepares, writing, rfl⟩ | ⟨-, dead⟩
        · obtain ⟨prepared, new, -, quiet⟩ := untouched_prepareProperty kept made fresh prepares
          have early := untouched.toUntouched
          obtain ⟨b, z, rest, writes, ending, rfl⟩ := exec_enter writing
          obtain ⟨rfl, -, rfl⟩ := exec_ret ending
          refine ⟨c, u, b, x, converted, early.sparing.trans prepared,
            fun n spares there => (new n spares there).imp_left (early.atoms n spares),
            quiet.trans (exec_thrownFor clear converts), ?_, writes, rfl, rfl, ?_⟩
          · intro function q object refers
            exact exec_unknown function converts object (untouched.objects.refers refers)
          intro st' writes'
          have again : Exec (stored S.roots) (Wrapper.setProperty (.ofThread S.thread) p name value) (w, st) _
              (.returned ()) (x.1, st') :=
            exec_append names (exec_append converts (exec_append prepares (.enter writes' (.ret _ _))))
          refine ⟨w, st, _, .unit, (x.1, st'), others, untouched, clear,
            exec_append again (.ret _ _), ?_, rfl, rfl⟩
          intro item member
          simp only [List.mem_append, List.mem_cons, List.not_mem_nil, or_false] at member steady
          rcases member with named | early | late | rfl
          · exact steady item (Or.inl named)
          · exact steady item (Or.inr (Or.inl early))
          · exact steady item (Or.inr (Or.inr (Or.inl late)))
          · exact steady (.call (.engine (.setPropertyStr (.object p) (ModifiedUtf8.encode name) c)) b x)
              (Or.inr (Or.inr (Or.inr rfl)))
        · cases dead
      · cases dead
    · cases dead
  · cases dead

end Writes

section Blank
variable {S : Setting} {roots : Addr → Prop} {s s' : World × Objects} {a : Answer} {env : JNIEnv}
  {value : Option JavaObject} {h : History (World × Objects) Prim ForeignCall Answer}

theorem blank_plain (x : Access) : ¬ x.plain .empty := by
  intro plain
  cases x with
  | get p k =>
    obtain ⟨f, ⟨depth, found⟩, -⟩ := plain
    cases depth <;> cases found
  | set p k v =>
    obtain ⟨r, ⟨depth, written⟩, -⟩ := plain
    cases written

theorem blank_refers (v : JSValue) : ¬ Refers roots Objects.empty.store v := by
  rintro ⟨p, o, k, b, reached, here, own⟩
  cases here

theorem blank_functions {e : EngineCall} (st : Objects) (functions : FunctionsKept roots e s s') :
    FunctionsKept roots e (s.1, st) (s'.1, .empty) := by
  intro q kept
  rcases kept with borrows | ⟨refers, -⟩
  · exact functions q (Or.inl borrows)
  · exact absurd refers (blank_refers _)

def ForeignCall.makesObjects : ForeignCall → Bool
  | .engine .newCallbackFunction | .engine (.parseJSON _) => true
  | _ => false

theorem blank_sideline {e : EngineCall} (other : (ForeignCall.engine e).makesObjects = false) (a : Answer) :
    sidelineEffect roots .empty e a .empty := by
  constructor
  · cases e with
    | newCallbackFunction => cases other
    | parseJSON bytes => cases other
    | defineName func bytes =>
      cases func with
      | object f =>
        refine ⟨none, ?_⟩
        rw [show (none : Option ObjectData) = Objects.empty.store f from rfl, Function.update_eq_self]
        exact .refl _
      | _ => exact Keeps.refl _
    | _ => exact Keeps.refl _
  · exact fun n there => Or.inl there

theorem access_runsJS {atoms : JSString → Bool} {e : EngineCall} {x : Access}
    (accesses : e.access atoms = some x) :
    e.runsJS = true := by
  cases e <;> first | rfl | cases accesses

theorem blank_reply {e : ForeignCall} (other : e.makesObjects = false)
    (reply : (stored roots).reply e s a s') : (stored roots).reply e (s.1, .empty) a (s'.1, .empty) := by
  have bare := reply_stored reply
  cases e with
  | java f args => exact bare
  | engine e =>
    replace reply : engineReply roots e s a s' := reply
    change engineReply roots e (s.1, .empty) a (s'.1, .empty)
    unfold engineReply at reply ⊢
    cases accesses : e.access Objects.empty.atoms with
    | some x => exact Or.inr ⟨blank_plain x, bare⟩
    | none =>
      refine ⟨bare, fun noJS => ⟨blank_sideline other a, ?_⟩⟩
      cases before : e.access s.2.atoms with
      | some x =>
        have runs := access_runsJS before
        rw [noJS] at runs
        cases runs
      | none =>
        simp only [before] at reply
        exact blank_functions .empty (reply.2 noJS).2

def Alongside {P E : Type} (h h' : History (World × Objects) P E Answer) : Prop :=
  ∀ i ∈ h', ∃ j ∈ h, i.after.1 = j.after.1

theorem alongside_append {P E : Type} {h₁ h₂ h₁' h₂' : History (World × Objects) P E Answer}
    (one : Alongside h₁ h₁') (two : Alongside h₂ h₂') : Alongside (h₁ ++ h₂) (h₁' ++ h₂') := by
  intro i member
  rcases List.mem_append.1 member with first | second
  · obtain ⟨j, there, same⟩ := one i first
    exact ⟨j, List.mem_append_left _ there, same⟩
  · obtain ⟨j, there, same⟩ := two i second
    exact ⟨j, List.mem_append_right _ there, same⟩

theorem blank_exec {R : Type} {p : Program R} {out : Outcome R}
    (within : p.Within (fun _ => True) fun e => e.makesObjects = false)
    (run : Exec (stored roots) p s h out s') :
    ∃ h', Exec (stored roots) p (s.1, .empty) h' out (s'.1, .empty) ∧ Alongside h h' := by
  refine ⟨_, exec_map_within (fun x => (x.1, Objects.empty)) within ?_ ?_ run, ?_⟩
  · intro c s a s' _ acts
    obtain ⟨done, -⟩ := acts_stored acts
    exact Option.map_eq_some_iff.2 ⟨_, done, rfl⟩
  · exact fun e s a s' other reply => blank_reply other reply
  · intro i member
    obtain ⟨j, there, rfl⟩ := List.mem_map.1 member
    refine ⟨j, there, ?_⟩
    cases j <;> rfl

def Bare (value : Option JavaObject) (c : JSValue) (st : Objects) : Prop :=
  st = .empty ∨ Wrapper.isCallFunction value = true ∧
    ∃ q, c = .object q ∧ st = Objects.empty.update q emptyObject

theorem blank_converts {c : JSValue} (run : Exec (stored roots) (toJSValue env value) s h (.returned c) s') :
    ∃ st h', Bare value c st ∧ Exec (stored roots) (toJSValue env value) (s.1, .empty) h' (.returned c)
      (s'.1, st) ∧
      Alongside h h' := by
  have others : (toJSValue env value).Within (fun _ => True) (fun e => e.makesObjects = false) →
      ∃ st h', Bare value c st ∧
        Exec (stored roots) (toJSValue env value) (s.1, .empty) h' (.returned c) (s'.1, st) ∧
        Alongside h h' := by
    intro within
    obtain ⟨h', again, along⟩ := blank_exec within run
    exact ⟨.empty, h', Or.inl rfl, again, along⟩
  cases value with
  | none => exact others trivial
  | some value =>
    cases value with
    | string text => exact others ⟨trivial, fun _ => ⟨rfl, fun _ => trivial⟩⟩
    | long n =>
      refine others ⟨trivial, fun _ => ?_⟩
      change (if maxSafeInteger < n.toInt ∨ n.toInt < -maxSafeInteger then enterValue (.newBigInt64 n)
        else .ret (newInt64 n)).Within _ _
      split
      · exact ⟨rfl, fun _ => trivial⟩
      · trivial
    | callFunction f =>
      obtain ⟨b, t, rest, reply, tail, rfl⟩ := exec_enter run
      obtain ⟨q, rfl⟩ := reply_newCallbackFunction (reply_stored reply)
      obtain ⟨hash, u, rest', hashes, tail', rfl⟩ := exec_prim tail
      obtain ⟨b', u', rest'', stores, last, rfl⟩ := exec_prim tail'
      obtain ⟨rfl, result, rfl⟩ := exec_ret last
      cases result
      let st : Objects := Objects.empty.update q emptyObject
      have bare : bridge.Reply (.engine .newCallbackFunction) s.1 (.value (.object q)) t.1 :=
        reply_stored reply
      have makes : (stored roots).reply (.engine .newCallbackFunction) (s.1, .empty) (.value (.object q))
          (t.1, st) := by
        refine ⟨bare, fun _ => ⟨⟨⟨_, emptyObject, .refl _, rfl, blank_refers _, rfl⟩, ?_⟩, ?_⟩⟩
        · intro n there
          cases there
        · rintro x (⟨operand, -⟩ | ⟨-, refers | consumed⟩)
          · cases operand
          · exact absurd refers (blank_refers _)
          · cases consumed
      have acts : ∀ {c : Prim} {a : Answer} {s s' : World × Objects},
          (stored roots).exec c s = some (a, s') →
          (stored roots).exec c (s.1, st) = some (a, (s'.1, st)) := by
        intro c a s s' done
        exact Option.map_eq_some_iff.2 ⟨_, (acts_stored done).1, rfl⟩
      have again : Exec (stored roots) (toJSValue env (some (.callFunction f))) (s.1, .empty) _
          (.returned (.object q)) (s'.1, st) :=
        .enter makes (.prim (acts hashes) (.prim (acts stores) (.ret _ _)))
      refine ⟨st, _, Or.inr ⟨rfl, q, rfl, rfl⟩, again, ?_⟩
      intro i member
      simp only [List.mem_cons, List.not_mem_nil, or_false] at member
      rcases member with rfl | rfl | rfl
      · exact ⟨_, List.mem_cons_self, rfl⟩
      · exact ⟨_, List.mem_cons_of_mem _ List.mem_cons_self, rfl⟩
      · exact ⟨_, List.mem_cons_of_mem _ (List.mem_cons_of_mem _ List.mem_cons_self), rfl⟩
    | _ => exact others ⟨trivial, fun _ => trivial⟩

theorem blank_prepares {c : JSValue} {bytes : List UInt8} {st : Objects} (start : Bare value c st)
    (run : Exec (stored roots) (Wrapper.prepareProperty bytes value c) s h (.returned ()) s') :
    ∃ h', Exec (stored roots) (Wrapper.prepareProperty bytes value c) (s.1, st) h' (.returned ())
      (s'.1, .empty) ∧ Alongside h h' := by
  rcases start with rfl | ⟨function, q, rfl, rfl⟩
  · apply blank_exec _ run
    unfold Wrapper.prepareProperty
    split
    · exact ⟨trivial, fun _ => trivial⟩
    · exact ⟨trivial, fun _ => trivial⟩
    · exact ⟨rfl, fun _ => trivial⟩
    · trivial
  · cases value with
    | none => cases function
    | some value =>
      cases value with
      | callFunction f =>
        obtain ⟨a, t, rest, reply, tail, rfl⟩ := exec_enter run
        obtain ⟨rfl, -, rfl⟩ := exec_ret tail
        have bare := reply_stored reply
        replace reply : engineReply roots (.defineName (.object q) bytes) s a s' := reply
        have names : (stored roots).reply (.engine (.defineName (.object q) bytes))
            (s.1, Objects.empty.update q emptyObject) a (s'.1, .empty) := by
          refine ⟨bare, fun _ => ⟨⟨⟨none, ?_⟩, ?_⟩, blank_functions _ (reply.2 rfl).2⟩⟩
          · have same : Function.update (Objects.empty.update q emptyObject).store q none =
              Objects.empty.store :=
              (Function.update_idem _ _ _).trans (Function.update_eq_self q Objects.empty.store)
            rw [same]
            exact .refl _
          · intro n there
            cases there
        refine ⟨_, .enter names (.ret _ _), ?_⟩
        intro i member
        cases List.mem_singleton.1 member
        exact ⟨_, List.mem_cons_self, rfl⟩
      | _ => cases function

theorem blank_attribute {p : Addr} {name : JavaString}
    (reply : StoredReply S (.setProperty p (some name) value) s a s') :
    StoredReply S (.setProperty p (some name) value) (s.1, .empty) a (s'.1, .empty) := by
  obtain ⟨w, st, h, d, x, others, -, clear, run, steady, rfl, rfl⟩ := reply
  rcases exec_bind run with ⟨⟨⟩, v, within, after, first, last, rfl⟩ | ⟨-, dead⟩
  · obtain ⟨rfl, same, rfl⟩ := exec_ret last
    cases same
    rcases exec_bind first with ⟨bytes, y, naming, rest, names, tail, rfl⟩ | ⟨-, dead⟩
    · rcases exec_bind tail with ⟨c, t, converting, rest, converts, more, rfl⟩ | ⟨-, dead⟩
      · rcases exec_bind more with ⟨⟨⟩, u, preparing, rest, prepares, writes, rfl⟩ | ⟨-, dead⟩
        · have text : (getStringUTFChars (.ofThread S.thread) name).Within (fun _ => True)
              fun e => e.makesObjects = false := ⟨trivial, fun _ => trivial⟩
          have write : ((enterInt (.setPropertyStr (.object p) bytes c)).bind fun _ => .ret ()).Within
              (fun _ => True) fun e => e.makesObjects = false := ⟨rfl, fun _ => trivial⟩
          obtain ⟨h₁, first', along₁⟩ := blank_exec text names
          obtain ⟨st₁, h₂, start, second, along₂⟩ := blank_converts converts
          obtain ⟨h₃, third, along₃⟩ := blank_prepares start prepares
          obtain ⟨h₄, fourth, along₄⟩ := blank_exec write writes
          have again : Exec (stored S.roots) (Wrapper.setProperty (.ofThread S.thread) p name value) (w, .empty)
              _ (.returned ()) (x.1, .empty) :=
            exec_append first' (exec_append second (exec_append third fourth))
          have along := alongside_append along₁
            (alongside_append along₂ (alongside_append along₃ along₄))
          refine ⟨w, .empty, _, .unit, (x.1, .empty), others, ⟨⟨.refl _, ?_, fun _ _ there => there⟩,
            fun _ _ => rfl⟩, clear,
            exec_append again (.ret _ _), ?_, rfl, rfl⟩
          · exact fun q refers => absurd refers (blank_refers _)
          · intro i member
            rw [List.append_nil] at member
            obtain ⟨j, there, same⟩ := along i member
            rw [same]
            exact steady j (List.mem_append_left _ there)
        · cases dead
      · cases dead
    · cases dead
  · cases dead

theorem blank_free {p : Nat} (reply : StoredReply S (.freeValue p) s a s') :
    StoredReply S (.freeValue p) (s.1, .empty) a (s'.1, .empty) := by
  obtain ⟨w, st, h, b, u, others, -, clear, run, steady, rfl, rfl⟩ := reply
  have within : ((NativeOp.freeValue p).program S.thread).Within (fun _ => True)
      fun e => e.makesObjects = false := by
    refine Prog.within_bind ⟨trivial, fun b => ?_⟩ fun _ => trivial
    change (if b.toBool then freeValue (.object p) else .ret ()).Within _ _
    split
    · exact ⟨rfl, fun _ => trivial⟩
    · trivial
  obtain ⟨h', again, along⟩ := blank_exec within run
  refine ⟨w, .empty, h', b, (u.1, .empty), others,
    ⟨⟨.refl _, ?_, fun _ _ there => there⟩, fun _ _ => rfl⟩, clear, again, ?_, rfl, rfl⟩
  · exact fun q refers => absurd refers (blank_refers _)
  · intro i member
    obtain ⟨j, there, same⟩ := along i member
    rw [same]
    exact steady j there

abbrev OnlyWrites {R : Type} (prog : Prog JavaPrim NativeOp Answer R) : Prop :=
  prog.Within (fun _ => True) fun op =>
    (∃ p name value, op = .setProperty p (some name) value) ∨ ∃ p, op = .freeValue p

theorem blank_java {R : Type} {prog : Prog JavaPrim NativeOp Answer R} {out : Outcome R}
    {h : History (World × Objects) JavaPrim NativeOp Answer} (within : OnlyWrites prog)
    (run : Exec (storedJava S) prog s h out s') :
    ∃ h', Exec (storedJava S) prog (s.1, .empty) h' out (s'.1, .empty) := by
  refine ⟨_, exec_map_within (fun x => (x.1, Objects.empty)) within ?_ ?_ run⟩
  · intro c s a s' _ acts
    cases acts
    rfl
  · rintro op s a s' (⟨p, name, value, rfl⟩ | ⟨p, rfl⟩) reply
    · exact blank_attribute reply
    · exact blank_free reply

end Blank

section Attributes
variable {S : Setting} {s s₀ s' : World × Objects} {a : Answer} {p : Addr} {name : JavaString}
  {value : Option JavaObject} {id objPointer : Nat} {cls : HandleClass} {attributes : List Attribute}
  {o o' : ObjectData} {k : PropertyKey} {h : History (World × Objects) JavaPrim NativeOp Answer}

def Declines (p : Addr) (s : World × Objects) (k : PropertyKey) : Prop :=
  ∀ c, Writes arrayLength s.2.store p k c .refused
def Runs (p : Addr) (s : World × Objects) (k : PropertyKey) : Prop :=
  ∀ c, Writes arrayLength s.2.store p k c .code

/-- Properties go on as they did with new values. -/
structure Continues (p : Addr) (s s' : World × Objects) : Prop where
  takes : ∀ k, Takes p s k → Takes p s' k
  declines : ∀ k, Declines p s k → Declines p s' k
  runs : ∀ k, Runs p s k → Runs p s' k

theorem Continues.trans {s'' : World × Objects} (one : Continues p s s') (two : Continues p s' s'') :
    Continues p s s'' :=
  ⟨fun k takes => two.takes k (one.takes k takes), fun k declines => two.declines k (one.declines k declines),
    fun k runs => two.runs k (one.runs k runs)⟩

theorem continues_keeps (held : S.roots p) (keeps : Keeps S.roots s.2.store s'.2.store) : Continues p s s' := by
  constructor
  · intro k takes c
    obtain ⟨o, written⟩ := takes c
    exact ⟨o, writes_keeps keeps held written⟩
  · exact fun k declines c => writes_keeps keeps held (declines c)
  · exact fun k runs c => writes_keeps keeps held (runs c)

theorem continues_put {u : JSValue} {w : World} (here : s.2.store p = some o) (plain : o.length = none)
    (sparse : o.dense = false) (takes : Takes p s k) :
    Continues p s (w, s.2.update p (o.put k u)) := by
  have apart : ∀ {k' c r}, Writes arrayLength s.2.store p k' c r → (∀ o', r ≠ .stored o') → k' ≠ k := by
    rintro k' c r written none rfl
    obtain ⟨o', stored⟩ := takes c
    exact none o' (writes_unique written stored)
  constructor
  · exact fun k' takes' => writes_put here plain sparse takes' u
  · intro k' declines c
    have other := apart (declines c) fun o' same => by cases same
    exact writes_beside here plain sparse other u (declines c)
  · intro k' runs c
    have other := apart (runs c) fun o' same => by cases same
    exact writes_beside here plain sparse other u (runs c)

inductive Wrote (p : Addr) (s : World × Objects) : List Attribute → ObjectData → ObjectData → Prop where
  | done (o : ObjectData) : Wrote p s [] o o
  | stored {x : Attribute} {rest : List Attribute} {o o' : ObjectData} {c : JSValue}
      (takes : Takes p s x.key) (converted : Converted x.value c)
      (new : Wrapper.isCallFunction x.value = true → ∀ b, o.own x.key ≠ some (.data c b))
      (later : Wrote p s rest (o.put x.key c) o') : Wrote p s (x :: rest) o o'
  | declined {x : Attribute} {rest : List Attribute} {o o' : ObjectData}
      (declines : Declines p s x.key) (later : Wrote p s rest o o') : Wrote p s (x :: rest) o o'

theorem OwnKey.access {x : Attribute} {c : JSValue} (own : OwnKey S s.2 x.name)
    (untouched : Untouched S.roots (Sparing S.spared x.bytes) s s') :
    (EngineCall.setPropertyStr (.object p) (ModifiedUtf8.encode x.name) c).access s'.2.atoms =
      some (.set p x.key c) := by
  obtain ⟨k, named⟩ := key_of_decoded (by rw [own.decodes]; rfl) s'.2.atoms
  have same : k = x.key := own.alone k ((namedBy_key named).before untouched (aside_sparing own.aside))
  simp only [EngineCall.access, named, Option.map_some, same]

theorem reply_coded {x : Attribute} (held : S.roots p) (own : OwnKey S s.2 x.name) (runs : Runs p s x.key)
    (reply : StoredReply S (.setProperty p (some x.name) x.value) s a s') :
    StoredReply S (.setProperty p (some x.name) x.value) s a (s'.1, .empty) := by
  obtain ⟨c, t, b, u, -, untouched, -, -, -, writes, -, rfl, others⟩ := reply_attribute reply
  apply others
  have bare := reply_stored writes
  have access := @OwnKey.access _ _ _ p _ c own untouched
  replace writes : engineReply S.roots _ t b u := writes
  change engineReply S.roots _ t b (u.1, .empty)
  unfold engineReply at writes ⊢
  simp only [access] at writes ⊢
  rcases writes with ⟨⟨r, written, ordinary⟩, -⟩ | ⟨code, -⟩
  · exact absurd (writes_unique written (writes_keeps untouched.objects held (runs c))) ordinary
  · exact Or.inr ⟨code, bare⟩

theorem converted_function {c : JSValue} (function : Wrapper.isCallFunction value = true)
    (converted : Converted value c) : ∃ q, c = .object q := by
  cases value with
  | none => cases function
  | some value =>
    cases value with
    | callFunction f => exact converted
    | _ => cases function

theorem reply_written {x : Attribute} (held : S.roots p) (here : s.2.store p = some o)
    (plain : o.length = none) (sparse : o.dense = false) (since : Continues p s₀ s)
    (own : OwnKey S s.2 x.name) (noCode : Takes p s₀ x.key ∨ Declines p s₀ x.key)
    (reply : StoredReply S (.setProperty p (some x.name) x.value) s a s') :
    a = (thrownFor x.value).elim .unit .javaThrow ∧ Continues p s₀ s' ∧
      (∀ n, S.spared n → s'.2.atoms n = true → s.2.atoms n = true ∨ x.key = .name n) ∧
      ∃ o', s'.2.store p = some o' ∧ o'.length = none ∧ o'.dense = false ∧
        ∀ rest o'', Wrote p s₀ rest o' o'' → Wrote p s₀ (x :: rest) o o'' := by
  obtain ⟨c, t, b, u, converted, untouched, new, thrown, unknown, writes, rfl, rfl, -⟩ := reply_attribute reply
  have access := @OwnKey.access _ _ _ p _ c own untouched
  have sees : u.1.agenda = t.1.agenda → seen .unit u.1 = ((thrownFor x.value).elim .unit .javaThrow) := by
    intro agenda
    have same : u.1.javaException = t.1.javaException := congrArg Agenda.javaException agenda
    unfold seen
    rw [same, thrown]
    cases thrownFor x.value <;> rfl
  have now : t.2.store p = some o := untouched.objects p o (.root held) here
  have before : Continues p s₀ t := since.trans (continues_keeps held untouched.objects)
  -- the name of a function is made an atom before the write
  have named : ∀ n, S.spared n → t.2.atoms n = true → s.2.atoms n = true ∨ x.key = .name n := by
    intro n spares there
    exact (new n spares there).imp_right fun only => only _ (Or.inr own.decodes)
  rcases noCode with takes | declines
  · obtain ⟨y, written⟩ := before.takes _ takes c
    obtain ⟨z, also, rfl, -⟩ := stored_put written
    cases now.symm.trans also
    obtain ⟨-, after, agenda⟩ := @answered_set _ S.spared _ _ _ _ _ _ _ _ access written writes
    have there : u.2.store p = some (o.put x.key c) :=
      after.objects p _ (.root held) (Function.update_self p _ t.2.store)
    have stays : Continues p s₀ u :=
      (before.trans (continues_put now plain sparse (before.takes _ takes))).trans
        (continues_keeps held after.objects)
    have fresh : Wrapper.isCallFunction x.value = true → ∀ b, o.own x.key ≠ some (.data c b) := by
      intro function b own
      obtain ⟨q, rfl⟩ := converted_function function converted
      exact unknown function q rfl ⟨p, o, _, b, .root held, here, own⟩
    refine ⟨sees agenda, ⟨stays.takes, stays.declines, stays.runs⟩, ?_, _, there, length_put plain x.key c,
      dense_put sparse x.key c, ?_⟩
    · intro n spares last
      have stored : (t.2.atoms n || ((o.put x.key c).own (.name n)).isSome) = true := after.atoms n spares last
      by_cases same : x.key = .name n
      · exact Or.inr same
      · have old : (o.put x.key c).own (.name n) = o.own (.name n) :=
          Function.update_of_ne (Ne.symm same) _ o.own
        rw [old] at stored
        rcases Bool.or_eq_true_iff.1 stored with known | has
        · exact named n spares known
        · exact Or.inl (s.2.named p o n here has)
    · exact fun rest o'' later => .stored takes converted fresh later
  · obtain ⟨-, after, agenda⟩ :=
      @answered_refused _ S.spared _ _ _ _ _ _ _ access (before.declines _ declines c) writes
    have stays : Continues p s₀ u := before.trans (continues_keeps held after.objects)
    refine ⟨sees agenda, ⟨stays.takes, stays.declines, stays.runs⟩, ?_, o,
      after.objects p o (.root held) now, plain, sparse, ?_⟩
    · exact fun n spares last => named n spares (after.atoms n spares last)
    · exact fun rest o'' later => .declined declines later

def reached : List Attribute → List Attribute
  | [] => []
  | x :: rest => if supported x.value then x :: reached rest else [x]

def answered : List Attribute → Answer
  | [] => .unit
  | x :: rest =>
    match thrownFor x.value with
    | some e => .javaThrow e
    | none => answered rest

theorem thrownFor_supported {value : Option JavaObject} (can : supported value = true) :
    thrownFor value = none := by
  cases value with
  | none => rfl
  | some value =>
    cases value with
    | other className => cases can
    | _ => rfl

theorem thrownFor_other {value : Option JavaObject} (cannot : supported value = false) :
    ∃ e, thrownFor value = some e := by
  cases value with
  | none => cases cannot
  | some value =>
    cases value with
    | other className => exact ⟨_, rfl⟩
    | _ => cases cannot

theorem within_setProperty (g : Option JavaObject) (name : JavaString) (value : Option JavaObject) :
    OnlyWrites (Java.setProperty g (some name) value) := by
  unfold Java.setProperty Java.putIfCallFunction Java.onHandle
  split
  · refine ⟨trivial, fun _ => ?_⟩
    split
    · exact ⟨Or.inl ⟨_, _, _, rfl⟩, fun _ => trivial⟩
    · trivial
    · trivial
  · split
    · exact ⟨Or.inl ⟨_, _, _, rfl⟩, fun _ => trivial⟩
    · trivial
    · trivial

theorem within_setProperties (g : Option JavaObject) : OnlyWrites (Java.setProperties g attributes) := by
  induction attributes with
  | nil => trivial
  | cons x rest ih =>
    refine Prog.within_bind (within_setProperty g x.name x.value) fun a => ?_
    split
    · trivial
    · exact ih

theorem exec_writes (held : S.roots p) (here : s.2.store p = some o) (plain : o.length = none)
    (sparse : o.dense = false) (since : Continues p s₀ s) (clear : Clear S s.2 (reached attributes))
    (sorted : ∀ k, Takes p s₀ k ∨ Declines p s₀ k ∨ Runs p s₀ k)
    (run : Exec (storedJava S) (Java.setProperties (some (.handle id cls p objPointer)) attributes) s h
      (.returned a) s') :
    ((∃ x ∈ reached attributes, Runs p s₀ x.key) ∧ ∃ h', Exec (storedJava S)
      (Java.setProperties (some (.handle id cls p objPointer)) attributes) s h' (.returned a) (s'.1, .empty)) ∨
    ((∀ x ∈ reached attributes, ¬ Runs p s₀ x.key) ∧ a = answered attributes ∧
      ∃ o', s'.2.store p = some o' ∧ Wrote p s₀ (reached attributes) o o') := by
  induction attributes generalizing s o h with
  | nil =>
    obtain ⟨-, same, rfl⟩ := exec_ret run
    cases same
    exact Or.inr ⟨nofun, rfl, o, here, .done o⟩
  | cons x rest ih =>
    have first_reached : x ∈ reached (x :: rest) := by
      unfold reached
      split <;> exact List.mem_cons_self
    rcases exec_bind run with ⟨b, t, before, after, first, later, -⟩ | ⟨-, dead⟩
    · obtain ⟨u, store, -, reply, another⟩ := exec_native first
      have now : u.2.store p = some o := (congrArg (Objects.store · p) store).trans here
      have meanwhile : Continues p s₀ u := by
        constructor
        · intro k takes
          unfold Takes
          rw [store]
          exact since.takes k takes
        · intro k declines
          unfold Declines
          rw [store]
          exact since.declines k declines
        · intro k runs
          unfold Runs
          rw [store]
          exact since.runs k runs
      have own : OwnKey S u.2 x.name := by
        rw [store]
        exact clear.own x first_reached
      by_cases runs : Runs p s₀ x.key
      · left
        refine ⟨⟨x, first_reached, runs⟩, ?_⟩
        obtain ⟨h₁, one⟩ := another _ (reply_coded held own (meanwhile.runs _ runs) reply)
        obtain ⟨h₂, two⟩ := blank_java (by
          split
          · trivial
          · exact within_setProperties _) later
        exact ⟨_, exec_append one two⟩
      · have noCode : Takes p s₀ x.key ∨ Declines p s₀ x.key := by
          rcases sorted x.key with takes | declines | runs'
          · exact Or.inl takes
          · exact Or.inr declines
          · exact absurd runs' runs
        obtain ⟨answer, onward, atoms, o₁, there, plain₁, sparse₁, wrote⟩ :=
          reply_written held now plain sparse meanwhile own noCode reply
        cases can : supported x.value with
        | false =>
          obtain ⟨e, thrown⟩ := thrownFor_other can
          rw [thrown] at answer
          subst answer
          obtain ⟨-, same, rfl⟩ := exec_ret later
          cases same
          have stops : reached (x :: rest) = [x] := by
            simp only [reached, can, Bool.false_eq_true, if_false]
          rw [stops]
          refine Or.inr ⟨?_, ?_, o₁, there, wrote _ _ (.done o₁)⟩
          · intro y member
            cases List.mem_singleton.1 member
            exact runs
          · simp only [answered, thrown]
        | true =>
          rw [thrownFor_supported can] at answer
          subst answer
          have goes : reached (x :: rest) = x :: reached rest := by
            simp only [reached, can, if_true]
          rw [goes] at clear ⊢
          rw [store] at atoms
          rcases ih there plain₁ sparse₁ onward (clear.tail atoms) later with
            ⟨⟨y, member, code⟩, h₂, two⟩ | ⟨none, rfl, o', last, all⟩
          · exact Or.inl ⟨⟨y, List.mem_cons_of_mem _ member, code⟩, _, exec_append first two⟩
          · refine Or.inr ⟨?_, ?_, o', last, wrote _ _ all⟩
            · intro y member
              rcases List.mem_cons.1 member with rfl | member
              · exact runs
              · exact none y member
            · simp only [answered, thrownFor_supported can]
    · cases dead

theorem answered_cases (attributes : List Attribute) :
    answered attributes = .unit ∨ ∃ e, answered attributes = .javaThrow e := by
  induction attributes with
  | nil => exact Or.inl rfl
  | cons x rest ih =>
    unfold answered
    cases thrownFor x.value with
    | some e => exact Or.inr ⟨e, rfl⟩
    | none => exact ih

theorem free_unit {q : Nat} (reply : StoredReply S (.freeValue q) s a s') : a = .unit := by
  obtain ⟨w, st, h, b, u, -, -, clear, run, -, rfl, -⟩ := reply
  rw [seen_clear ((exec_silent (calm_freeNative q) (exec_stored run)).1.trans clear)]
  rcases exec_bind run with ⟨_, v, before, after, first, last, -⟩ | ⟨-, dead⟩
  · obtain ⟨-, same, -⟩ := exec_ret last
    cases same
    rfl
  · cases dead

theorem writeGlobal_writes (held : S.roots s.1.globalObj) (here : s.2.store s.1.globalObj = some o)
    (plain : o.length = none) (sparse : o.dense = false) (clear : Clear S s.2 (reached attributes))
    (sorted : ∀ k, Takes s.1.globalObj s k ∨ Declines s.1.globalObj s k ∨ Runs s.1.globalObj s k)
    (back : ComesBack S (Java.writeGlobal attributes) s a s') :
    ((∃ x ∈ reached attributes, Runs s.1.globalObj s x.key) ∧
      ComesBack S (Java.writeGlobal attributes) s a (s'.1, .empty)) ∨
    ((∀ x ∈ reached attributes, ¬ Runs s.1.globalObj s x.key) ∧ a = answered attributes ∧
      ∃ o', s'.2.store s.1.globalObj = some o' ∧ Wrote s.1.globalObj s (reached attributes) o o') := by
  obtain ⟨h, run⟩ := back
  rcases exec_bind run with ⟨b, t, before, after, first, rest, -⟩ | ⟨-, dead⟩
  · obtain ⟨c, u, later, reply, last, -⟩ := exec_enter first
    obtain ⟨-, same, rfl⟩ := exec_ret last
    cases same
    obtain ⟨id, rfl⟩ := reply_global reply
    have untouched := untouched_getGlobalObject reply
    have now : t.2.store s.1.globalObj = some o := untouched.objects _ o (.root held) here
    have since : Continues s.1.globalObj s t := continues_keeps held untouched.objects
    rcases exec_bind rest with ⟨d, v, writing, freeing, third, fourth, -⟩ | ⟨-, dead⟩
    · rcases exec_writes held now plain sparse since (clear.later untouched) sorted third with
        ⟨coded, h₁, two⟩ | ⟨none, rfl, o', there, wrote⟩
      · have frees : OnlyWrites (Java.freeValue (some (.handle id .jsObject s.1.globalObj 0))) :=
          ⟨trivial, fun _ => ⟨Or.inr ⟨_, rfl⟩, fun _ => trivial⟩⟩
        obtain ⟨h₂, three⟩ := blank_java (by
          split
          · trivial
          · exact frees) fourth
        exact Or.inl ⟨coded, _, exec_append first (exec_append two three)⟩
      · refine Or.inr ⟨none, ?_⟩
        rcases answered_cases attributes with fine | ⟨e, failed⟩
        · rw [fine] at fourth ⊢
          have freed := exec_freeGlobal fourth
          obtain ⟨b, w, rest, acts, tail, -⟩ := exec_prim fourth
          obtain ⟨c, x, later, frees, last, -⟩ := exec_enter tail
          obtain ⟨-, same, -⟩ := exec_ret last
          cases same
          exact ⟨free_unit frees, o', freed.objects _ o' (.root held) there, wrote⟩
        · rw [failed] at fourth ⊢
          obtain ⟨-, same, rfl⟩ := exec_ret fourth
          cases same
          exact ⟨rfl, o', there, wrote⟩
    · cases dead
  · cases dead

end Attributes

end QuickJSBridge
