import QuickJSBridge.ExportedMethods
import QuickJSBridge.GlobalObject

/- J2qjsScriptContext keeps the attributes of the engine scope twice: in a Bindings object on the
   Java side, and as properties of the global object. -/
namespace QuickJSBridge
open HostProgram ReentrantMachine ScriptObjects

section Keys

theorem numberOfDigits_concat {l : List UInt16} {c : UInt16} {m n : Nat}
    (reads : numberOfDigits (l ++ [c]) m = some n) : ∃ d, numberOfDigits l m = some d ∧
      0x30 ≤ c.toNat ∧ c.toNat ≤ 0x39 ∧ n = d * 10 + (c.toNat - 0x30) := by
  induction l generalizing m with
  | nil =>
    rw [List.nil_append, numberOfDigits] at reads
    split at reads
    next digit =>
      simp only [Bool.and_eq_true, decide_eq_true_eq] at digit
      exact ⟨m, rfl, digit.1.1, digit.1.2, (Option.some.inj reads).symm⟩
    next => cases reads
  | cons b l ih =>
    rw [List.cons_append, numberOfDigits] at reads
    unfold numberOfDigits
    split at reads
    next digit =>
      rw [if_pos digit]
      exact ih reads
    next => cases reads

theorem numberOfDigits_le {l : List UInt16} {m n : Nat} (reads : numberOfDigits l m = some n) : m ≤ n := by
  induction l generalizing m with
  | nil => exact Nat.le_of_eq (Option.some.inj reads)
  | cons c l ih =>
    rw [numberOfDigits] at reads
    split at reads
    · exact Nat.le_trans (by omega) (ih reads)
    · cases reads

theorem numberOfDigits_inj {l l' : List UInt16} {m m' n : Nat} (digit : 1 ≤ m ∧ m < 10)
    (digit' : 1 ≤ m' ∧ m' < 10) (reads : numberOfDigits l m = some n)
    (reads' : numberOfDigits l' m' = some n) : m = m' ∧ l = l' := by
  induction l using List.reverseRecOn generalizing l' n with
  | nil =>
    cases Option.some.inj reads
    rcases List.eq_nil_or_concat l' with rfl | ⟨k, c, rfl⟩
    · exact ⟨(Option.some.inj reads').symm, rfl⟩
    · rw [List.concat_eq_append] at reads'
      obtain ⟨d, before, -, -, value⟩ := numberOfDigits_concat reads'
      have least := numberOfDigits_le before
      omega
  | append_singleton l c ih =>
    obtain ⟨d, before, low, high, value⟩ := numberOfDigits_concat reads
    rcases List.eq_nil_or_concat l' with rfl | ⟨k, c', rfl⟩
    · cases Option.some.inj reads'
      have least := numberOfDigits_le before
      omega
    · rw [List.concat_eq_append] at reads' ⊢
      obtain ⟨d', before', low', high', value'⟩ := numberOfDigits_concat reads'
      obtain rfl : d = d' := by omega
      obtain ⟨first, rest⟩ := ih before before'
      have last : c = c' := UInt16.toNat_inj.1 (by omega)
      exact ⟨first, by rw [rest, last]⟩

theorem isNumString_inj {s t : JSString} {n : Nat} (one : isNumString s = some n)
    (two : isNumString t = some n) : s.units = t.units := by
  -- a number is 0, or its text starts with another digit
  have form : ∀ {s : JSString}, isNumString s = some n → (s.units = [0x30] ∧ n = 0) ∨
      ∃ c rest, s.units = c :: rest ∧ (1 ≤ c.toNat - 0x30 ∧ c.toNat - 0x30 < 10) ∧
        numberOfDigits rest (c.toNat - 0x30) = some n := by
    intro s number
    unfold isNumString at number
    split at number
    · cases number
    · split at number
      next zero => exact Or.inl ⟨zero, (Option.some.inj number).symm⟩
      next =>
        split at number
        · cases number
        next other =>
          right
          cases units : s.units with
          | nil =>
            rw [units] at number
            contradiction
          | cons c rest =>
            rw [units, List.head?_cons, Option.some.injEq] at other
            rw [units, numberOfDigits, Nat.zero_mul, Nat.zero_add] at number
            split at number
            next digit =>
              simp only [Bool.and_eq_true, decide_eq_true_eq] at digit
              have nonzero : c.toNat ≠ 0x30 := fun same => other (UInt16.toNat_inj.1 same)
              exact ⟨c, rest, rfl, by omega, number⟩
            next => cases number
  rcases form one with ⟨zero, rfl⟩ | ⟨c, rest, units, digit, reads⟩
  · rcases form two with ⟨zero', -⟩ | ⟨c, rest, -, digit, reads⟩
    · rw [zero, zero']
    · have least := numberOfDigits_le reads
      omega
  · rcases form two with ⟨-, rfl⟩ | ⟨c', rest', units', digit', reads'⟩
    · have least := numberOfDigits_le reads
      omega
    · obtain ⟨first, later⟩ := numberOfDigits_inj digit digit' reads reads'
      have same : c = c' := UInt16.toNat_inj.1 (by omega)
      rw [units, units', same, later]

theorem exactKey_inj {name name' : JavaString} (same : exactKey name = exactKey name') : name = name' := by
  have units : (JSString.ofUnits name).units = (JSString.ofUnits name').units := by
    unfold exactKey newAtom at same
    split at same
    next n number =>
      split at same
      · split at same
        · split at same
          · exact congrArg JSString.units (Key.name.inj same)
          · cases same
        · exact congrArg JSString.units (Key.name.inj same)
      · split at same
        next n' number' =>
          split at same
          · cases same
          · cases Key.index.inj same
            exact isNumString_inj number number'
        · cases same
    next =>
      split at same
      · split at same
        · exact congrArg JSString.units (Key.name.inj same)
        · cases same
      · exact congrArg JSString.units (Key.name.inj same)
  rwa [units_ofUnits, units_ofUnits] at units

end Keys

section Contexts

abbrev Bindings := JavaString → Option (Option JavaObject)

structure ScriptContext where
  engineScope : Nat
  contents : Nat → Bindings

def ScriptContext.bindings (c : ScriptContext) : Bindings := c.contents c.engineScope

def ScriptContext.update (c : ScriptContext) (name : JavaString) (x : Option (Option JavaObject)) :
    ScriptContext :=
  { c with contents := Function.update c.contents c.engineScope (Function.update c.bindings name x) }

theorem bindings_update (c : ScriptContext) (name : JavaString) (x : Option (Option JavaObject)) :
    (c.update name x).bindings = Function.update c.bindings name x :=
  Function.update_self c.engineScope _ c.contents

structure Attribute where
  name : JavaString
  value : Option JavaObject

def Attribute.key (a : Attribute) : PropertyKey := exactKey a.name
def Attribute.bytes (a : Attribute) : List UInt8 := ModifiedUtf8.encode a.name

def Enumerates (attributes : List Attribute) (b : Bindings) : Prop :=
  (attributes.map Attribute.name).Nodup ∧ ∀ a, a ∈ attributes ↔ b a.name = some a.value

def checkName : Option JavaString → Except JavaException JavaString
  | none => .error (.nullPointer "")
  | some name => if name = [] then .error (.illegalArgument "name cannot be empty") else .ok name

/-- `SimpleBindings.checkKey`. -/
def checkKey : Option JavaString → Except JavaException JavaString
  | none => .error (.nullPointer "key can not be null")
  | some name => if name = [] then .error (.illegalArgument "key can not be empty") else .ok name

namespace Java

def setProperties (g : Option JavaObject) : List Attribute → JavaProgram
  | [] => .ret .unit
  | a :: attributes => andThen (setProperty g (some a.name) a.value) (setProperties g attributes)

def writeGlobal (attributes : List Attribute) : JavaProgram :=
  (native .getGlobalObject).bind fun a =>
    match a with
    | .javaReturn g => andThen (setProperties g attributes) (freeValue g)
    | a => .ret a

end Java

/-- The calls that change the engine scope. The JDK's put is put of the Bindings object. -/
inductive ContextCall where
  | put (name : Option JavaString) (value : Option JavaObject)
  | setAttribute (name : Option JavaString) (value : Option JavaObject)
  | removeAttribute (name : Option JavaString)
  /-- With the entries in the order of the iteration. -/
  | setBindings (bindings : Option Nat) (attributes : List Attribute)

structure ContextState where
  context : ScriptContext
  engine : World × Objects

def ContextState.global (s : ContextState) : Addr := s.engine.1.globalObj

/-- The global object is an ordinary object, with these properties. -/
structure HasGlobal (S : Setting) (s : ContextState) (o : ObjectData) : Prop where
  held : S.roots s.global
  here : s.engine.2.store s.global = some o
  plain : o.length = none
  sparse : o.dense = false

def ComesBack (S : Setting) (p : JavaProgram) (s : World × Objects) (a : Answer) (s' : World × Objects) :
    Prop :=
  ∃ h, Exec (storedJava S) p s h (.returned a) s'

/-- What a call does, and what it comes back with. -/
def ContextCall.Performs (S : Setting) (s : ContextState) (a : Answer) (s' : ContextState) : ContextCall → Prop
  | .put name value =>
    match checkKey name with
    | .error e => a = .javaThrow e ∧ s' = s
    | .ok name => a = .unit ∧ s' = { s with context := s.context.update name (some value) }
  | .setAttribute name value =>
    match checkName name with
    | .error e => a = .javaThrow e ∧ s' = s
    | .ok name => s'.context = s.context.update name (some value) ∧
      ComesBack S (Java.writeGlobal [⟨name, value⟩]) s.engine a s'.engine
  | .removeAttribute name =>
    match checkName name with
    | .error e => a = .javaThrow e ∧ s' = s
    | .ok name => a = .javaReturn (s.context.bindings name).join ∧
      s' = { s with context := s.context.update name none }
  | .setBindings none _ => a = .javaThrow (.nullPointer "Engine scope cannot be null.") ∧ s' = s
  | .setBindings (some b) attributes => Enumerates attributes (s.context.contents b) ∧
      s'.context = { s.context with engineScope := b } ∧
      ComesBack S (Java.writeGlobal attributes) s.engine a s'.engine

end Contexts

section Asides
variable {S : Setting} {roots : Addr → Prop} {spared : JSString → Prop} {s s' : World × Objects} {a : Answer}

theorem untouched_within {R : Type} {p : Program R} {out : Outcome R}
    {h : History (World × Objects) Prim ForeignCall Answer}
    (within : p.Within (fun c => ∀ v id source, c ≠ .setFuncCallback v id source)
      fun e => ∃ v, e = .engine (.freeValue v))
    (run : Exec (stored roots) p s h out s') : Untouched roots spared s s' := by
  induction run with
  | ret r s => exact .refl s
  | crash s => exact .refl s
  | prim acts rest ih => exact (untouched_acts acts within.1).trans (ih (within.2 _))
  | enter answers rest ih =>
    obtain ⟨v, rfl⟩ := within.1
    have freed := @answered_aside _ spared _ _ (.freeValue v) _ (fun _ => rfl) rfl (fun _ _ _ kept => kept)
      answers
    exact freed.trans (ih (within.2 _))

theorem within_freeing {prims : Prim → Prop} (v : JSValue) :
    (freeValue v).Within prims fun e => ∃ v, e = .engine (.freeValue v) := by
  unfold freeValue
  split
  · trivial
  · exact ⟨⟨v, rfl⟩, fun _ => trivial⟩

theorem untouched_native {op : NativeOp}
    (within : (op.program S.thread).Within (fun c => ∀ v id source, c ≠ .setFuncCallback v id source)
      fun e => ∃ v, e = .engine (.freeValue v))
    (reply : StoredReply S op s a s') : Untouched S.roots S.spared s s' := by
  obtain ⟨w, st, h, b, u, -, untouched, -, run, -, -, rfl⟩ := reply
  exact (untouched.toUntouched.trans (untouched_within within run)).trans (untouched_seen _ _ u)

theorem untouched_getGlobalObject (reply : StoredReply S .getGlobalObject s a s') :
    Untouched S.roots S.spared s s' := by
  apply untouched_native _ reply
  refine ⟨nofun, fun value => ⟨nofun, fun result => ?_⟩⟩
  change (((freeValue value.toValue).bind fun _ => .ret result.toJava).bind fun o =>
    .ret (Answer.javaReturn o)).Within _ _
  refine Prog.within_bind ?_ fun _ => trivial
  exact Prog.within_bind (within_freeing _) fun _ => trivial

theorem untouched_freeNative {p : Nat} (reply : StoredReply S (.freeValue p) s a s') :
    Untouched S.roots S.spared s s' := by
  apply untouched_native _ reply
  refine Prog.within_bind ⟨nofun, fun b => ?_⟩ fun _ => trivial
  change (if b.toBool then freeValue (.object p) else .ret ()).Within _ _
  split
  · exact within_freeing _
  · trivial

theorem grounds_stored {op : NativeOp} (reply : StoredReply S op s a s') : Grounds s.1 s'.1 := by
  obtain ⟨w, st, h, b, u, ⟨labels, stack, stack', ran⟩, -, -, run, -, -, rfl⟩ := reply
  have during : Grounds w u.1 := grounds_program (exec_stored run)
  exact (grounds_run ran).trans during

theorem grounds_storedJava {R : Type} {p : Prog JavaPrim NativeOp Answer R} {out : Outcome R}
    {h : History (World × Objects) JavaPrim NativeOp Answer} (run : Exec (storedJava S) p s h out s') :
    Grounds s.1 s'.1 := by
  induction run with
  | ret r s => exact .refl s.1
  | crash s => exact .refl s.1
  | @prim c a s s' next h out u acts rest ih =>
    cases acts
    have same : Grounds s.1 (javaExec c s.1).2 := by cases c <;> exact ⟨rfl, id⟩
    exact same.trans ih
  | enter answers rest ih => exact (grounds_stored answers).trans ih

theorem silent_freeValue {prims : Prim → Prop} (v : JSValue) : (freeValue v).Within prims IsCalm := by
  unfold freeValue
  split
  · trivial
  · exact ⟨⟨_, rfl, rfl⟩, fun _ => trivial⟩

theorem calm_globalNative {t : ThreadId} :
    (NativeOp.getGlobalObject.program t).Within (fun c => c.throws = false) IsCalm := by
  refine ⟨rfl, fun value => ⟨rfl, fun result => ?_⟩⟩
  change (((freeValue value.toValue).bind fun _ => .ret result.toJava).bind fun o =>
    .ret (Answer.javaReturn o)).Within _ _
  refine Prog.within_bind ?_ fun _ => trivial
  exact Prog.within_bind (silent_freeValue _) fun _ => trivial

theorem calm_freeNative {t : ThreadId} (p : Nat) :
    ((NativeOp.freeValue p).program t).Within (fun c => c.throws = false) IsCalm := by
  refine Prog.within_bind ⟨rfl, fun b => ?_⟩ fun _ => trivial
  change (if b.toBool then freeValue (.object p) else .ret ()).Within _ _
  split
  · exact silent_freeValue _
  · trivial

theorem reply_global (reply : StoredReply S .getGlobalObject s a s') :
    ∃ id, a = .javaReturn (some (.handle id .jsObject s.1.globalObj 0)) := by
  obtain ⟨w, st, h, b, u, ⟨labels, stack, stack', ran⟩, -, clear, run, -, rfl, -⟩ := reply
  rw [seen_clear ((exec_silent calm_globalNative (exec_stored run)).1.trans clear)]
  have grounds : w.globalObj = s.1.globalObj := (grounds_run ran).1
  rcases exec_bind run with ⟨o, v, before, after, first, last, -⟩ | ⟨-, dead⟩
  · obtain ⟨-, same, rfl⟩ := exec_ret last
    cases same
    obtain ⟨value, x, rest, acts, tail, -⟩ := exec_prim first
    obtain ⟨done, -⟩ := acts_stored acts
    obtain ⟨y, kept, same⟩ := Option.map_eq_some_iff.1 done
    cases same
    obtain ⟨made, ⟨z, st'⟩, rest', creates, ending, -⟩ := exec_prim tail
    obtain ⟨created, -⟩ := acts_stored creates
    cases created
    rw [Prog.bind_ret] at ending
    rcases exec_bind ending with ⟨_, z', freeing, done, free, final, -⟩ | ⟨-, dead⟩
    · obtain ⟨-, same, rfl⟩ := exec_ret final
      cases same
      refine ⟨x.1.handles.length, ?_⟩
      rw [← grounds]
      rfl
    · cases dead
  · cases dead

end Asides

section Names
variable {S : Setting} {s s' : World × Objects} {p : Addr} {name : JavaString} {k : PropertyKey}
  {attributes : List Attribute} {x y : Attribute}

structure OwnKey (S : Setting) (st : Objects) (name : JavaString) : Prop where
  aside : Aside S.spared (ModifiedUtf8.encode name)
  decodes : decodedKey (ModifiedUtf8.encode name) = some (exactKey name)
  alone : ∀ key, NamedBy st.atoms (ModifiedUtf8.encode name) key → key = exactKey name

theorem OwnKey.later (own : OwnKey S s.2 name) (untouched : Untouched S.roots S.spared s s') :
    OwnKey S s'.2 name :=
  ⟨own.aside, own.decodes, fun key named => own.alone key (named.before untouched own.aside)⟩

def Beside (k : PropertyKey) (bytes : List UInt8) : Prop :=
  startsWithDigit bytes = false → k ≠ .name (latinText bytes)

theorem OwnKey.beside (own : OwnKey S s.2 name) (beside : Beside k (ModifiedUtf8.encode name))
    (atoms : ∀ n, S.spared n → s'.2.atoms n = true → s.2.atoms n = true ∨ k = .name n) :
    OwnKey S s'.2 name := by
  refine ⟨own.aside, own.decodes, ?_⟩
  rintro key (⟨letter, known, rfl⟩ | decoded)
  · rcases own.aside with ascii | spares
    · exact own.alone _ (Or.inr ascii)
    · rcases atoms _ spares known with before | same
      · exact own.alone _ (Or.inl ⟨letter, before, rfl⟩)
      · exact absurd same (beside letter)
  · exact own.alone key (Or.inr decoded)

theorem OwnKey.takes (own : OwnKey S s.2 name) (takes : Takes p s (exactKey name)) :
    TakesAny s.2 p (ModifiedUtf8.encode name) := by
  refine ⟨by rw [own.decodes]; rfl, fun key named => ?_⟩
  rw [own.alone key named]
  exact takes

structure Clear (S : Setting) (st : Objects) (attributes : List Attribute) : Prop where
  own : ∀ x ∈ attributes, OwnKey S st x.name
  beside : attributes.Pairwise fun x y => Beside x.key y.bytes

theorem Clear.later (clear : Clear S s.2 attributes) (untouched : Untouched S.roots S.spared s s') :
    Clear S s'.2 attributes :=
  ⟨fun x member => (clear.own x member).later untouched, clear.beside⟩

theorem clear_single (own : OwnKey S s.2 x.name) : Clear S s.2 [x] := by
  refine ⟨fun y member => ?_, List.pairwise_singleton _ _⟩
  rw [List.mem_singleton.1 member]
  exact own

theorem Clear.tail (clear : Clear S s.2 (x :: attributes))
    (atoms : ∀ n, S.spared n → s'.2.atoms n = true → s.2.atoms n = true ∨ x.key = .name n) :
    Clear S s'.2 attributes := by
  obtain ⟨beside, later⟩ := List.pairwise_cons.1 clear.beside
  exact ⟨fun y member => (clear.own y (List.mem_cons_of_mem _ member)).beside (beside y member) atoms, later⟩

theorem keys_apart (distinct : (attributes.map Attribute.name).Nodup) :
    attributes.Pairwise fun x y => x.key ≠ y.key :=
  (List.pairwise_map.1 distinct).imp fun other same => other (exactKey_inj same)

end Names

section Writes
variable {S : Setting} {s s' : World × Objects} {a : Answer} {p : Addr} {w w' w'' : World}
  {o o' o'' : ObjectData} {attributes : List Attribute}
  {h : History (World × Objects) JavaPrim NativeOp Answer}

def Bound (w : World) (o : ObjectData) (x : Attribute) : Prop :=
  ∃ c b, o.own x.key = some (.data c b) ∧ Converted x.value c ∧ c ≠ .exception ∧ MadeFor w x.value c

def Still (w w' : World) (o o' : ObjectData) (k : PropertyKey) : Prop :=
  o'.own k = o.own k ∧ ∀ q b, o.own k = some (.data (.object q) b) →
    w'.registry.callbackAt q = w.registry.callbackAt q

theorem Still.trans {k : PropertyKey} (one : Still w w' o o' k) (two : Still w' w'' o' o'' k) :
    Still w w'' o o'' k := by
  constructor
  · exact two.1.trans one.1
  · intro q b own
    exact (two.2 q b (one.1.trans own)).trans (one.2 q b own)

theorem bound_still {x : Attribute} (bound : Bound w o x) (still : Still w w' o o' x.key) : Bound w' o' x := by
  obtain ⟨c, b, own, converted, sound, made⟩ := bound
  obtain ⟨same, callbacks⟩ := still
  refine ⟨c, b, same.trans own, converted, sound, ?_⟩
  rintro f value q rfl
  rw [callbacks q b own]
  exact made f value q rfl

def Accepts (p : Addr) (s : World × Objects) (x : Attribute) : Prop :=
  (∃ c, Converted x.value c ∧ c ≠ .exception) ∧ Takes p s x.key

theorem supported_of_converted {value : Option JavaObject} {c : JSValue} (converted : Converted value c)
    (sound : c ≠ .exception) : supported value = true := by
  cases value with
  | none => rfl
  | some value =>
    cases value with
    | other className => exact absurd converted sound
    | _ => rfl

structure Filled (attributes : List Attribute) (w w' : World) (o o' : ObjectData) : Prop where
  plain : o'.length = none
  sparse : o'.dense = false
  bound : ∀ x ∈ attributes, Bound w' o' x
  others : ∀ k, (∀ x ∈ attributes, x.key ≠ k) → Still w w' o o' k

theorem still_untouched (held : S.roots p) (here : s.2.store p = some o)
    (untouched : Untouched S.roots S.spared s s') (k : PropertyKey) : Still s.1 s'.1 o o k := by
  refine ⟨rfl, fun q b own => ?_⟩
  exact untouched.functions q ⟨p, o, k, b, .root held, here, own⟩

theorem exec_attribute {id : Nat} {cls : HandleClass} {objPointer : Nat} {x : Attribute}
    (held : S.roots p) (here : s.2.store p = some o) (plain : o.length = none) (sparse : o.dense = false)
    (own : OwnKey S s.2 x.name) (accepts : Accepts p s x)
    (run : Exec (storedJava S) (Java.setProperty (some (.handle id cls p objPointer)) (some x.name) x.value)
      s h (.returned a) s') :
    a = .unit ∧ (∃ o', s'.2.store p = some o' ∧ Filled [x] s.1 s'.1 o o') ∧
      (∀ k, Takes p s k → Takes p s' k) ∧
      ∀ n, S.spared n → s'.2.atoms n = true → s.2.atoms n = true ∨ x.key = .name n := by
  obtain ⟨⟨c, converted, sound⟩, takes⟩ := accepts
  obtain ⟨rfl, k, d, o', set⟩ :=
    exec_putProperty held (supported_of_converted converted sound) own.aside (own.takes takes) run
  obtain rfl : k = x.key := own.alone k set.named
  obtain ⟨y, also, rfl, -⟩ := stored_put set.written
  cases here.symm.trans also
  have there : s'.2.store p = some (o.put x.key d) :=
    set.objects p _ (.root held) (Function.update_self p _ s.2.store)
  refine ⟨rfl, ⟨_, there, length_put plain x.key d, dense_put sparse x.key d, ?_, ?_⟩, ?_, set.atoms⟩
  · intro z member
    cases List.mem_singleton.1 member
    exact ⟨d, true, Function.update_self x.key _ o.own, set.converted,
      ListCall.converted_same converted sound set.converted, set.made⟩
  · intro k' others
    have other : k' ≠ x.key := (others x (List.mem_singleton_self x)).symm
    have same : (o.put x.key d).own k' = o.own k' := Function.update_of_ne other _ o.own
    refine ⟨same, fun q b own => ?_⟩
    exact set.functions q ⟨p, o, k', b, .root held, here, own⟩
      ⟨p, _, k', b, .root held, Function.update_self p _ s.2.store, same.trans own⟩
  · exact fun k' more => takes_set held ⟨o, here, plain, sparse⟩ set.toPropertySet more

theorem exec_setProperties {id : Nat} {cls : HandleClass} {objPointer : Nat}
    (held : S.roots p) (here : s.2.store p = some o) (plain : o.length = none) (sparse : o.dense = false)
    (clear : Clear S s.2 attributes) (accepts : ∀ x ∈ attributes, Accepts p s x)
    (apart : attributes.Pairwise fun x y => x.key ≠ y.key)
    (run : Exec (storedJava S) (Java.setProperties (some (.handle id cls p objPointer)) attributes) s h
      (.returned a) s') :
    a = .unit ∧ ∃ o', s'.2.store p = some o' ∧ Filled attributes s.1 s'.1 o o' := by
  induction attributes generalizing s o h with
  | nil =>
    obtain ⟨-, same, rfl⟩ := exec_ret run
    cases same
    exact ⟨rfl, o, here, plain, sparse, nofun, fun k _ => ⟨rfl, fun _ _ _ => rfl⟩⟩
  | cons x attributes ih =>
    obtain ⟨distinct, apart⟩ := List.pairwise_cons.1 apart
    rcases exec_bind run with ⟨b, t, before, after, first, rest, -⟩ | ⟨-, dead⟩
    · obtain ⟨rfl, ⟨o₁, now, one⟩, takes, atoms⟩ := exec_attribute held here plain sparse
        (clear.own x List.mem_cons_self) (accepts x List.mem_cons_self) first
      have later : ∀ y ∈ attributes, Accepts p t y := by
        intro y member
        obtain ⟨converts, ready⟩ := accepts y (List.mem_cons_of_mem _ member)
        exact ⟨converts, takes _ ready⟩
      obtain ⟨rfl, o', there, all⟩ := ih now one.plain one.sparse (clear.tail atoms) later apart rest
      refine ⟨rfl, o', there, all.plain, all.sparse, ?_, ?_⟩
      · intro y member
        rcases List.mem_cons.1 member with rfl | member
        · apply bound_still (one.bound y (List.mem_singleton_self y))
          exact all.others _ fun z there same => distinct z there same.symm
        · exact all.bound y member
      · intro k others
        have this : Still s.1 t.1 o o₁ k := by
          apply one.others k
          intro z member
          cases List.mem_singleton.1 member
          exact others x List.mem_cons_self
        exact this.trans (all.others k fun z member => others z (List.mem_cons_of_mem _ member))
    · cases dead

theorem Filled.within (before : ∀ k, Still w w' o o k) (filled : Filled attributes w' w'' o o')
    {u : World} (after : ∀ k, Still w'' u o' o' k) : Filled attributes w u o o' where
  plain := filled.plain
  sparse := filled.sparse
  bound := fun x member => bound_still (filled.bound x member) (after x.key)
  others := fun k others => ((before k).trans (filled.others k others)).trans (after k)

theorem exec_freeGlobal {id : Nat} {cls : HandleClass} {objPointer : Nat}
    (run : Exec (storedJava S) (Java.freeValue (some (.handle id cls p objPointer))) s h (.returned a) s') :
    Untouched S.roots S.spared s s' := by
  obtain ⟨b, t, rest, acts, tail, -⟩ := exec_prim run
  cases acts
  obtain ⟨c, u, later, reply, last, -⟩ := exec_enter tail
  obtain ⟨-, -, rfl⟩ := exec_ret last
  have called : Untouched S.roots S.spared s ((javaExec (.freeValueCalled id) s.1).2, s.2) :=
    untouched_of_callbacks rfl rfl
  exact called.trans (untouched_freeNative reply)

theorem writeGlobal_fills (held : S.roots s.1.globalObj) (here : s.2.store s.1.globalObj = some o)
    (plain : o.length = none) (sparse : o.dense = false) (clear : Clear S s.2 attributes)
    (accepts : ∀ x ∈ attributes, Accepts s.1.globalObj s x)
    (apart : attributes.Pairwise fun x y => x.key ≠ y.key)
    (back : ComesBack S (Java.writeGlobal attributes) s a s') :
    ∃ o', s'.2.store s.1.globalObj = some o' ∧ Filled attributes s.1 s'.1 o o' := by
  obtain ⟨h, run⟩ := back
  rcases exec_bind run with ⟨b, t, before, after, first, rest, -⟩ | ⟨-, dead⟩
  · obtain ⟨c, u, later, reply, last, -⟩ := exec_enter first
    obtain ⟨-, same, rfl⟩ := exec_ret last
    cases same
    obtain ⟨id, rfl⟩ := reply_global reply
    have untouched := untouched_getGlobalObject reply
    have now : t.2.store s.1.globalObj = some o := untouched.objects _ o (.root held) here
    have ready : ∀ x ∈ attributes, Accepts s.1.globalObj t x := by
      intro x member
      obtain ⟨converts, takes⟩ := accepts x member
      refine ⟨converts, fun c => ?_⟩
      obtain ⟨x, written⟩ := takes c
      exact ⟨x, writes_keeps untouched.objects held written⟩
    rcases exec_bind rest with ⟨d, v, writing, freeing, third, fourth, -⟩ | ⟨-, dead⟩
    · obtain ⟨rfl, o', there, filled⟩ :=
        exec_setProperties held now plain sparse (clear.later untouched) ready apart third
      have freed := exec_freeGlobal fourth
      refine ⟨o', freed.objects _ o' (.root held) there, filled.within ?_ ?_⟩
      · exact still_untouched held here untouched
      · exact still_untouched held there freed
    · cases dead
  · cases dead

end Writes
end QuickJSBridge
