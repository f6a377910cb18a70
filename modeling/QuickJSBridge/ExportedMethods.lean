import QuickJSBridge.CallbackRegistry
import QuickJSBridge.ArrayElements

/- Java objects exported to JS. An exported object has a property for each public method of a
   class, under the name of the method, and they are set in the order reflection lists them. -/
namespace QuickJSBridge
open HostProgram ReentrantMachine ScriptObjects

structure Method where
  name : JavaString
  identity : Nat
  accepts : List (Option JavaObject) → Bool

def exactKey (name : JavaString) : PropertyKey := newAtom (.ofUnits name)

def Method.key (known : JSString → Bool) (m : Method) : Option PropertyKey :=
  propertyKey known (ModifiedUtf8.encode m.name)

def learn (known : JSString → Bool) (key : Option PropertyKey) (n : JSString) : Bool :=
  known n || key = some (.name n)

abbrev Exported := Method × JSCallFunction

/-- What the loop over the methods takes of each. -/
def Exported.entry (x : Exported) : JavaString × JSCallFunction := (x.1.name, x.2)

def lastUnder (k : PropertyKey) : (JSString → Bool) → List Exported → Option Exported
  | _, [] => none
  | known, x :: methods =>
    (lastUnder k (learn known (x.1.key known)) methods).or (if x.1.key known = some k then some x else none)

theorem lastUnder_cons {known : JSString → Bool} {x : Exported} {methods : List Exported} {k : PropertyKey}
    (key : x.1.key known = some k) (k' : PropertyKey) : lastUnder k' known (x :: methods) =
      (lastUnder k' (learn known (some k)) methods).or (if k = k' then some x else none) := by
  change (lastUnder k' (learn known (x.1.key known)) methods).or
    (if x.1.key known = some k' then some x else none) = _
  rw [key]
  by_cases same : k = k'
  · rw [if_pos same, if_pos (congrArg some same)]
  · rw [if_neg same, if_neg (fun eq => same (Option.some.inj eq))]

theorem mem_of_lastUnder {k : PropertyKey} {known : JSString → Bool} {methods : List Exported} {x : Exported}
    (last : lastUnder k known methods = some x) : x ∈ methods := by
  induction methods generalizing known with
  | nil => cases last
  | cons y methods ih =>
    unfold lastUnder at last
    rcases Option.or_eq_some_iff.1 last with there | ⟨-, here⟩
    · exact List.mem_cons_of_mem _ (ih there)
    · obtain ⟨-, same⟩ := Option.ite_none_right_eq_some.1 here
      cases same
      exact List.mem_cons_self

section Names
variable {roots : Addr → Prop} {spared : JSString → Prop} {s s' : World × Objects} {known : JSString → Bool}
  {value : Option JavaObject} {p : Addr} {name : List UInt8} {names : List (List UInt8)} {k : PropertyKey}
  {c : JSValue} {o : ObjectData}

def Foreseen (roots : Addr → Prop) (known : JSString → Bool) (st : Objects) (names : List (List UInt8)) :
    Prop :=
  ∀ name ∈ names, decodedKey name ≠ some (.name (latinText name)) →
    (st.atoms (latinText name) = true → known (latinText name) = true) ∧
    (known (latinText name) = true → HeldName roots st (latinText name))

theorem heldName_set {n : JSString} (set : PropertySet roots value p k s s' c o)
    (held : HeldName roots s.2 n) : HeldName roots s'.2 n := by
  obtain ⟨x, here, rfl, -⟩ := stored_put set.written
  obtain ⟨q, y, reached, there, own⟩ := held
  have still : Reached (Function.update s.2.store p (some (x.put k c))) roots q := by
    have back : Function.update (Function.update s.2.store p (some (x.put k c))) p (some x) = s.2.store := by
      rw [Function.update_idem, ← here, Function.update_eq_self]
    apply @reached_update _ _ _ _ _ _ p q (x.put k c) x (Function.update_self p _ s.2.store) rfl
    rw [back]
    exact reached
  by_cases same : q = p
  · subst same
    cases here.symm.trans there
    refine ⟨q, _, set.objects.reached still, set.objects q _ still (Function.update_self q _ s.2.store), ?_⟩
    change (Function.update x.own k _ _).isSome = true
    by_cases key : .name n = k
    · rw [key, Function.update_self]
      rfl
    · rwa [Function.update_of_ne key]
  · refine ⟨q, y, set.objects.reached still, set.objects q y still ?_, own⟩
    rw [Function.update_of_ne same]
    exact there

theorem heldName_new {n : JSString} (held : roots p) (set : PropertySet roots value p (.name n) s s' c o) :
    HeldName roots s'.2 n := by
  obtain ⟨x, here, rfl, -⟩ := stored_put set.written
  refine ⟨p, _, .root held, set.objects p _ (.root held) (Function.update_self p _ s.2.store), ?_⟩
  change (Function.update x.own (.name n) _ _).isSome = true
  rw [Function.update_self]
  rfl

theorem key_foreseen (foreseen : Foreseen roots known s.2 names) (member : name ∈ names)
    (set : NamedSet roots spared value p name k s s' c o) : propertyKey known name = some k := by
  by_cases plain : decodedKey name = some (.name (latinText name))
  · have same : k = .name (latinText name) := by
      rcases set.named with ⟨-, -, latin⟩ | decoded
      · exact latin
      · exact Option.some.inj (decoded.symm.trans plain)
    unfold propertyKey
    rw [same, plain]
    simp
  · obtain ⟨up, down⟩ := foreseen name member plain
    unfold propertyKey
    by_cases latin : (!startsWithDigit name && known (latinText name)) = true
    · rw [if_pos latin]
      obtain ⟨letter, known⟩ := Bool.and_eq_true_iff.1 latin
      rcases set.settled with ⟨-, same, -⟩ | ⟨-, only⟩
      · rw [same]
      · rw [only _ (Or.inl ⟨by simpa using letter, (heldName_set set.toPropertySet (down known)).atom, rfl⟩)]
    · rw [if_neg latin]
      rcases set.named with ⟨letter, known, -⟩ | decoded
      · exact absurd (by simp [letter, up known]) latin
      · exact decoded

theorem foreseen_set (held : roots p) (aside : ∀ name ∈ names, Aside spared name)
    (foreseen : Foreseen roots known s.2 names) (set : NamedSet roots spared value p name k s s' c o) :
    Foreseen roots (learn known (some k)) s'.2 names := by
  intro other member accented
  obtain ⟨up, down⟩ := foreseen other member accented
  have spares : spared (latinText other) := (aside other member).resolve_left accented
  unfold learn
  constructor
  · intro there
    rcases set.atoms _ spares there with known | same
    · rw [up known, Bool.true_or]
    · simp [same]
  · intro there
    rcases Bool.or_eq_true_iff.1 there with known | same
    · exact heldName_set set.toPropertySet (down known)
    · obtain rfl : k = .name (latinText other) := Option.some.inj (of_decide_eq_true same)
      exact heldName_new held set.toPropertySet

end Names

section Loop
variable {S : Setting} {s s' : World × Objects} {a : Answer}
  {h : History (World × Objects) JavaPrim NativeOp Answer} {p : Addr}

theorem reply_newObject {id : Nat} {cls : HandleClass} {objPointer : Nat} (held : S.roots p)
    (reply : StoredReply S (.parseJSON (some [0x7B, 0x7D])) s
      (.javaReturn (some (.handle id cls p objPointer))) s') :
    Keeps S.roots s.2.store s'.2.store ∧ Fresh S.roots s.2.store p ∧
      ∃ o, s'.2.store p = some o ∧ ObjectData.isEmpty o := by
  obtain ⟨w, st, h, b, u, -, untouched, clear, run, -, sees, rfl⟩ := reply
  rcases exec_bind run with ⟨o, v, before, after, first, last, -⟩ | ⟨-, dead⟩
  · obtain ⟨-, same, rfl⟩ := exec_ret last
    cases same
    obtain ⟨item, rest, -, tail⟩ := exec_text first
    obtain ⟨d, t, later, answers, ending, -⟩ := exec_enter tail
    rw [Prog.bind_ret] at ending
    have returned : o = some (.handle id cls p objPointer) := by
      unfold seen at sees
      split at sees
      · cases sees
      · cases sees
        rfl
    subst returned
    split at ending
    · rcases exec_bind ending with ⟨_, x, throwing, done, third, fourth, -⟩ | ⟨-, dead⟩
      · obtain ⟨-, none, -⟩ := exec_ret fourth
        cases none
      · cases dead
    · obtain ⟨shown, kept⟩ := @exec_shown _ S.spared _ _ _ _ _ _ _ ending
      have object : d = .value (.object p) := by
        cases d with
        | value v =>
          cases v with
          | object q =>
            obtain ⟨id', cls', objPointer', same⟩ := shown
            cases same
            rfl
          | string q text =>
            obtain ⟨bytes, text', -, same, -⟩ := shown
            cases same
          | float64 x =>
            replace shown : some (JavaObject.handle id cls p objPointer) =
                some (if x.isInteger then .long x.toInt64 else .double x) := shown
            split at shown <;> cases shown
          | _ => cases shown
        | _ => cases shown
      subst object
      replace answers : engineReply S.roots (.parseJSON (ascii "{}")) (w, st) (.value (.object p)) t := answers
      obtain ⟨⟨⟨st₁, x, keeps, empty, plain, after⟩, -⟩, -⟩ := answers.2 rfl
      have before : Keeps S.roots s.2.store st₁ := untouched.objects.trans keeps
      have later : Keeps S.roots (Function.update st₁ p (some x)) u.2.store := after.trans kept.objects
      refine ⟨(before.trans (keeps_new x empty)).trans later, fresh_empty before empty, x, ?_, plain rfl⟩
      exact later p x (.root held) (Function.update_self p _ st₁)
  · cases dead

def Exports (p : Addr) (s : World × Objects) (k : PropertyKey) (f : JSCallFunction) : Prop :=
  ∃ x q b, s.2.store p = some x ∧ x.own k = some (.data (.object q) b) ∧
    s.1.registry.callbackAt q = some ⟨f.hashCode, f⟩

def IsPlain (p : Addr) (s : World × Objects) : Prop :=
  ∃ x, s.2.store p = some x ∧ x.length = none ∧ x.dense = false

def Lacking (p : Addr) (s : World × Objects) (k : PropertyKey) : Prop :=
  ∃ x, s.2.store p = some x ∧ x.own k = none

def Takes (p : Addr) (s : World × Objects) (k : PropertyKey) : Prop :=
  ∀ c, ∃ o, Writes arrayLength s.2.store p k c (.stored o)

theorem takes_set {k k' : PropertyKey} {value : Option JavaObject} {c : JSValue} {o : ObjectData}
    (held : S.roots p) (plain : IsPlain p s) (set : PropertySet S.roots value p k s s' c o)
    (takes : Takes p s k') : Takes p s' k' := by
  obtain ⟨x, here, notArray, sparse⟩ := plain
  obtain ⟨y, also, rfl, -⟩ := stored_put set.written
  cases here.symm.trans also
  intro d
  obtain ⟨o', written⟩ := writes_put here notArray sparse takes c d
  exact ⟨o', writes_keeps set.objects held written⟩

theorem takesAny_set {k : PropertyKey} {bytes other : List UInt8} {value : Option JavaObject} {c : JSValue}
    {o : ObjectData} (held : S.roots p) (aside : Aside S.spared other) (plain : IsPlain p s)
    (set : NamedSet S.roots S.spared value p bytes k s s' c o) (takes : TakesAny s.2 p bytes)
    (also : TakesAny s.2 p other) : TakesAny s'.2 p other := by
  refine ⟨also.decodes, ?_⟩
  have later : ∀ key, Takes p s key → Takes p s' key :=
    fun key takes => takes_set held plain set.toPropertySet takes
  rintro key (⟨letter, known, rfl⟩ | decoded)
  · rcases aside with ascii | spares
    · exact later _ (also.stores _ (Or.inr ascii))
    · rcases set.atoms _ spares known with before | same
      · exact later _ (also.stores _ (Or.inl ⟨letter, before, rfl⟩))
      · rw [← same]
        exact later _ (takes.stores _ set.named)
  · exact later _ (also.stores _ (Or.inr decoded))

structure MethodSet (S : Setting) (p : Addr) (name : List UInt8) (k : PropertyKey) (f : JSCallFunction)
    (s s' : World × Objects) : Prop where
  exports : Exports p s' k f
  others : ∀ k' g, k' ≠ k → Exports p s k' g → Exports p s' k' g
  lacking : ∀ k', k' ≠ k → Lacking p s k' → Lacking p s' k'
  plain : IsPlain p s'
  outside : ∀ st, Keeps S.roots st s.2.store → Fresh S.roots st p → Keeps S.roots st s'.2.store
  set : ∃ c o, NamedSet S.roots S.spared (some (.callFunction f)) p name k s s' c o

theorem methodSet_of_namedSet {name : List UInt8} {k : PropertyKey} {f : JSCallFunction} {c : JSValue}
    {o : ObjectData} (held : S.roots p) (plain : IsPlain p s)
    (set : NamedSet S.roots S.spared (some (.callFunction f)) p name k s s' c o) :
    MethodSet S p name k f s s' := by
  obtain ⟨x, here, notArray, sparse⟩ := plain
  obtain ⟨y, also, rfl, -⟩ := stored_put set.written
  cases here.symm.trans also
  obtain ⟨q, rfl⟩ := set.converted
  have there : s'.2.store p = some (x.put k (.object q)) :=
    set.objects p _ (.root held) (Function.update_self p _ s.2.store)
  have beside : ∀ k', k' ≠ k → (x.put k (.object q)).own k' = x.own k' :=
    fun k' other => Function.update_of_ne other _ x.own
  constructor
  · exact ⟨_, q, true, there, Function.update_self k _ x.own, set.made f rfl q rfl⟩
  · rintro k' g other ⟨z, r, b, was, own, callback⟩
    cases here.symm.trans was
    have still : (x.put k (.object q)).own k' = some (.data (.object r) b) := (beside k' other).trans own
    refine ⟨_, r, b, there, still, ?_⟩
    rw [set.functions r ⟨p, x, k', b, .root held, here, own⟩
      ⟨p, _, k', b, .root held, Function.update_self p _ s.2.store, still⟩]
    exact callback
  · rintro k' other ⟨z, was, none⟩
    cases here.symm.trans was
    exact ⟨_, there, (beside k' other).trans none⟩
  · exact ⟨_, there, length_put notArray k _, dense_put sparse k _⟩
  · intro st keeps fresh
    exact (keeps_beside keeps fresh _).trans set.objects
  · exact ⟨_, _, set⟩

theorem exec_native {id : Nat} {cls : HandleClass} {objPointer : Nat} {name : JavaString}
    {value : Option JavaObject} (run : Exec (storedJava S)
      (Java.setProperty (some (.handle id cls p objPointer)) (some name) value) s h (.returned a) s') :
    ∃ t, t.2 = s.2 ∧ t.1.registry.callbackAt = s.1.registry.callbackAt ∧
      StoredReply S (.setProperty p (some name) value) t a s' ∧
      ∀ u, StoredReply S (.setProperty p (some name) value) t a u → ∃ h', Exec (storedJava S)
        (Java.setProperty (some (.handle id cls p objPointer)) (some name) value) s h' (.returned a) u := by
  unfold Java.setProperty Java.putIfCallFunction at run ⊢
  split at run
  next f =>
    obtain ⟨b, t, rest, acts, tail, -⟩ := exec_prim run
    cases acts
    obtain ⟨c, u, later, reply, last, -⟩ := exec_enter tail
    obtain ⟨-, same, rfl⟩ := exec_ret last
    cases same
    exact ⟨((javaExec (.putCallFunction f) s.1).2, s.2), rfl, rfl, reply,
      fun u other => ⟨_, .prim rfl (.enter other (.ret _ _))⟩⟩
  next =>
    obtain ⟨c, u, later, reply, last, -⟩ := exec_enter run
    obtain ⟨-, same, rfl⟩ := exec_ret last
    cases same
    exact ⟨s, rfl, rfl, reply, fun u other => ⟨_, .enter other (.ret _ _)⟩⟩

theorem exec_putProperty {id : Nat} {cls : HandleClass} {objPointer : Nat} {name : JavaString}
    {value : Option JavaObject} (held : S.roots p) (can : supported value = true)
    (aside : Aside S.spared (ModifiedUtf8.encode name)) (takes : TakesAny s.2 p (ModifiedUtf8.encode name))
    (run : Exec (storedJava S) (Java.setProperty (some (.handle id cls p objPointer)) (some name) value) s h
      (.returned a) s') :
    a = .unit ∧ ∃ k c o, NamedSet S.roots S.spared value p (ModifiedUtf8.encode name) k s s' c o := by
  obtain ⟨t, store, callbacks, reply, -⟩ := exec_native run
  have ready : TakesAny t.2 p (ModifiedUtf8.encode name) := by
    rw [store]
    exact takes
  obtain ⟨rfl, k, c, o, set⟩ := reply_set held can aside ready reply
  have written := set.written
  rw [store] at written
  exact ⟨rfl, k, c, o, set.within held aside (untouched_of_callbacks store callbacks) written (.refl _)⟩

theorem exec_setMethod {id : Nat} {cls : HandleClass} {objPointer : Nat} {name : JavaString}
    {f : JSCallFunction} (held : S.roots p) (plain : IsPlain p s)
    (aside : Aside S.spared (ModifiedUtf8.encode name)) (takes : TakesAny s.2 p (ModifiedUtf8.encode name))
    (run : Exec (storedJava S) (Java.setProperty (some (.handle id cls p objPointer)) (some name)
      (some (.callFunction f))) s h (.returned a) s') :
    a = .unit ∧ ∃ k, MethodSet S p (ModifiedUtf8.encode name) k f s s' := by
  obtain ⟨rfl, k, c, o, set⟩ := exec_putProperty held rfl aside takes run
  exact ⟨rfl, k, methodSet_of_namedSet held plain set⟩

def nameBytes (methods : List Exported) : List (List UInt8) :=
  methods.map fun x => ModifiedUtf8.encode x.1.name

theorem exec_setMethods {id : Nat} {cls : HandleClass} {objPointer : Nat} {methods : List Exported}
    {names : List (List UInt8)} {known : JSString → Bool} {last : JavaProgram} (held : S.roots p)
    (plain : IsPlain p s) (all : ∀ name ∈ nameBytes methods, name ∈ names)
    (aside : ∀ name ∈ names, Aside S.spared name) (foreseen : Foreseen S.roots known s.2 names)
    (takes : ∀ name ∈ nameBytes methods, TakesAny s.2 p name)
    (run : Exec (storedJava S) (Java.setMethods (some (.handle id cls p objPointer))
      (methods.map Exported.entry) last) s h (.returned a) s') :
    ∃ t h', Exec (storedJava S) last t h' (.returned a) s' ∧
      (∀ k x, lastUnder k known methods = some x → Exports p t k x.2) ∧
      (∀ k g, lastUnder k known methods = none → Exports p s k g → Exports p t k g) ∧
      (∀ k, lastUnder k known methods = none → Lacking p s k → Lacking p t k) ∧
      ∀ st, Keeps S.roots st s.2.store → Fresh S.roots st p → Keeps S.roots st t.2.store := by
  induction methods generalizing s h known with
  | nil =>
    exact ⟨s, h, run, nofun, fun k g _ exports => exports, fun k _ lacking => lacking, fun st keeps _ => keeps⟩
  | cons x methods ih =>
    have first' : ModifiedUtf8.encode x.1.name ∈ nameBytes (x :: methods) := List.mem_cons_self
    have others' : ∀ {name}, name ∈ nameBytes methods → name ∈ nameBytes (x :: methods) :=
      List.mem_cons_of_mem _
    rcases exec_bind run with ⟨b, t, before, after, first, rest, -⟩ | ⟨-, dead⟩
    · obtain ⟨rfl, k, set⟩ := exec_setMethod held plain (aside _ (all _ first')) (takes _ first') first
      obtain ⟨c, o, named⟩ := set.set
      have key : x.1.key known = some k := key_foreseen foreseen (all _ first') named
      have later : ∀ name ∈ nameBytes methods, TakesAny t.2 p name := fun name member =>
        takesAny_set held (aside _ (all _ (others' member))) plain named (takes _ first')
          (takes _ (others' member))
      obtain ⟨u, h', ending, exports, others, lacking, outside⟩ := ih set.plain
        (fun name member => all name (others' member)) (foreseen_set held aside foreseen named) later rest
      have split := fun k' => @lastUnder_cons known x methods k key k'
      refine ⟨u, h', ending, ?_, ?_, ?_, ?_⟩
      · intro k' y found
        rw [split] at found
        rcases Option.or_eq_some_iff.1 found with there | ⟨none, here⟩
        · exact exports k' y there
        · obtain ⟨rfl, it⟩ := Option.ite_none_right_eq_some.1 here
          cases it
          exact others k _ none set.exports
      · intro k' g none was
        rw [split] at none
        obtain ⟨later, other⟩ := Option.or_eq_none_iff.1 none
        apply others k' g later (set.others k' g _ was)
        rintro rfl
        rw [if_pos rfl] at other
        cases other
      · intro k' none was
        rw [split] at none
        obtain ⟨later, other⟩ := Option.or_eq_none_iff.1 none
        apply lacking k' later (set.lacking k' _ was)
        rintro rfl
        rw [if_pos rfl] at other
        cases other
      · intro st keeps fresh
        exact outside st (set.outside st keeps fresh) fresh
    · cases dead

end Loop

section Exports

/-- A Java object is exported as a property of another object, where no code is run when the
    properties are set. -/
structure Export where
  setting : Setting
  receiver : Receiver
  held : setting.roots receiver.pointer
  name : JavaString
  /-- The public methods in the order in which they are listed, each with a lambda of its own. -/
  methods : List Exported
  lambdas : (methods.map Prod.snd).Nodup
  aside : ∀ bytes ∈ ModifiedUtf8.encode name :: nameBytes methods, Aside setting.spared bytes
  start : World × Objects
  decodes : (decodedKey (ModifiedUtf8.encode name)).isSome = true
  ordinary : ∀ atoms k, NamedBy atoms (ModifiedUtf8.encode name) k → Takes receiver.pointer start k
  /-- The object that is made for the properties. -/
  object : Receiver
  kept : setting.roots object.pointer
  made : World × Objects
  makes : StoredReply setting (.parseJSON (some [0x7B, 0x7D])) start (.javaReturn object.handle) made
  /-- The atoms there are of the methods' names, read as Latin-1, are those of held properties. -/
  steady : Foreseen setting.roots made.2.atoms made.2 (nameBytes methods)
  takes : ∀ bytes ∈ nameBytes methods, TakesAny made.2 object.pointer bytes
  history : History (World × Objects) JavaPrim NativeOp Answer
  answer : Answer
  stop : World × Objects
  fills : Exec (storedJava setting) (Java.setMethods object.handle (methods.map Exported.entry)
    (Java.setProperty receiver.handle (some name) object.handle)) made history (.returned answer) stop

namespace Export
variable {k : PropertyKey}

def last (e : Export) (k : PropertyKey) : Option Exported := lastUnder k e.made.2.atoms e.methods

/-- A script calls the exported function of this name, and the lambda that the map on the Java side
    has for its id is that of this method. -/
def Invokes (e : Export) (name : JavaString) (m : Method) : Prop :=
  ∃ key p o q b object f, propertyKey e.stop.2.atoms (ModifiedUtf8.encode e.name) = some key ∧
    Finds arrayLength e.stop.2.store e.receiver.pointer key (.value (.object p)) ∧
    e.stop.2.store p = some o ∧ o.own (exactKey name) = some (.data (.object q) b) ∧
    e.stop.1.registry.callbackAt q = some object ∧
    e.stop.1.callFunctionMap object.callbackId = some f ∧ (m, f) ∈ e.methods

theorem exported (e : Export) :
    (∃ key, propertyKey e.stop.2.atoms (ModifiedUtf8.encode e.name) = some key ∧
      Finds arrayLength e.stop.2.store e.receiver.pointer key (.value (.object e.object.pointer))) ∧
    (∀ k x, e.last k = some x → Exports e.object.pointer e.stop k x.2) ∧
    ∀ k, e.last k = none → Lacking e.object.pointer e.stop k := by
  obtain ⟨keeps, fresh, o, there, own, length, extensible, exotic, dense⟩ := reply_newObject e.kept e.makes
  obtain ⟨t, h, last, exports, -, lacking, outside⟩ := exec_setMethods e.kept ⟨o, there, length, dense⟩
    (fun _ member => member) (fun bytes member => e.aside bytes (List.mem_cons_of_mem _ member)) e.steady
    e.takes e.fills
  have before := outside e.start.2.store keeps fresh
  have ordinary : TakesAny t.2 e.receiver.pointer (ModifiedUtf8.encode e.name) := by
    refine ⟨e.decodes, fun k named c => ?_⟩
    obtain ⟨x, written⟩ := e.ordinary _ k named c
    exact ⟨x, writes_keeps before e.held written⟩
  obtain ⟨b, u, rest, reply, ending, -⟩ := exec_enter last
  obtain ⟨-, same, stops⟩ := exec_ret ending
  subst stops
  obtain ⟨rfl, key, c, x, set⟩ := reply_set e.held rfl (e.aside _ List.mem_cons_self) ordinary reply
  have converted : c = .object e.object.pointer := set.converted
  subst converted
  have apart : e.object.pointer ≠ e.receiver.pointer := by
    obtain ⟨x', written⟩ := e.ordinary t.2.atoms key set.named .undefined
    obtain ⟨r, at_start, -⟩ := stored_put written
    exact (fresh e.receiver.pointer r (.root e.held) at_start).symm
  have still : ∀ z, t.2.store e.object.pointer = some z →
      Function.update t.2.store e.receiver.pointer (some x) e.object.pointer = some z := by
    intro z here
    rw [Function.update_of_ne apart, here]
  refine ⟨⟨key, set.settled.key, finds_keeps set.objects e.held (finds_stored set.written)⟩, ?_, ?_⟩
  · intro k y found
    obtain ⟨z, q, d, here, has, callback⟩ := exports k y found
    refine ⟨z, q, d, set.objects _ z (.root e.kept) (still z here), has, ?_⟩
    rw [set.functions q ⟨_, z, k, d, .root e.kept, here, has⟩ ⟨_, z, k, d, .root e.kept, still z here, has⟩]
    exact callback
  · intro k none
    obtain ⟨z, here, absent⟩ := lacking k none ⟨o, there, by rw [own]⟩
    exact ⟨z, set.objects _ z (.root e.kept) (still z here), absent⟩

def Called (e : Export) (k : PropertyKey) (m : Method) : Prop :=
  ∃ x f, e.last k = some x ∧ e.stop.1.callFunctionMap x.2.hashCode = some f ∧ (m, f) ∈ e.methods

theorem invokes_iff (e : Export) (name : JavaString) (m : Method) :
    e.Invokes name m ↔ e.Called (exactKey name) m := by
  obtain ⟨⟨key, named, here⟩, exports, lacking⟩ := e.exported
  constructor
  · rintro ⟨key', p, o, q, b, object, f, named', at_p, there, own, callback, mapped, member⟩
    cases named.symm.trans named'
    cases finds_unique here at_p
    cases last : e.last (exactKey name) with
    | none =>
      obtain ⟨z, also, absent⟩ := lacking _ last
      cases there.symm.trans also
      cases own.symm.trans absent
    | some x =>
      obtain ⟨z, r, d, also, has, function⟩ := exports _ x last
      cases there.symm.trans also
      cases own.symm.trans has
      cases callback.symm.trans function
      exact ⟨x, f, last, mapped, member⟩
  · rintro ⟨x, f, last, mapped, member⟩
    obtain ⟨o, q, b, there, own, callback⟩ := exports _ x last
    exact ⟨key, _, o, q, b, _, f, named, here, there, own, callback, mapped, member⟩

theorem called_unique {e : Export} {m m' : Method} (one : e.Called k m) (two : e.Called k m') : m = m' := by
  obtain ⟨x, f, last, mapped, member⟩ := one
  obtain ⟨x', f', last', mapped', member'⟩ := two
  cases last.symm.trans last'
  cases mapped.symm.trans mapped'
  have same := List.inj_on_of_nodup_map e.lambdas member member' rfl
  exact congrArg Prod.fst same

theorem called_registered {e : Export} (registered : e.stop.1.registry.Registered) (m : Method) :
    e.Called k m ↔ (e.last k).map Prod.fst = some m := by
  have mapped : ∀ x, e.last k = some x → e.stop.1.callFunctionMap x.2.hashCode = some x.2 := by
    intro x last
    obtain ⟨o, q, b, -, -, callback⟩ := e.exported.2.1 k x last
    exact registered q _ callback
  constructor
  · rintro ⟨x, f, last, leads, member⟩
    cases (mapped x last).symm.trans leads
    have same := List.inj_on_of_nodup_map e.lambdas member (mem_of_lastUnder last) rfl
    rw [last, ← same]
    rfl
  · intro last
    obtain ⟨x, found, rfl⟩ := Option.map_eq_some_iff.1 last
    exact ⟨x, x.2, found, mapped x found, mem_of_lastUnder found⟩

end Export

/-- Two exports of one class, with its methods listed in two orders. -/
structure TwoOrders where
  first : Export
  second : Export
  same : (first.methods.map Prod.fst).Perm (second.methods.map Prod.fst)

namespace TwoOrders

def methods (t : TwoOrders) : List Method := t.first.methods.map Prod.fst

def AcceptsAll (t : TwoOrders) (m c : Method) : Prop :=
  ∀ x ∈ t.methods, x.name = m.name → ∀ args, x.accepts args = true → c.accepts args = true

/-- Under each name both call the same method, and one that accepts the arguments if any does. -/
def Agrees (t : TwoOrders) : Prop :=
  ∀ m ∈ t.methods, ∃ c, (∀ x, t.first.Invokes m.name x ↔ x = c) ∧
    (∀ x, t.second.Invokes m.name x ↔ x = c) ∧ t.AcceptsAll m c

/-- Under each name the map has the same method for the ids of the lambdas set last, and it accepts
    what any method of that name does. -/
def SameCalled (t : TwoOrders) : Prop :=
  ∀ m ∈ t.methods, ∃ c, t.first.Called (exactKey m.name) c ∧ t.second.Called (exactKey m.name) c ∧
    t.AcceptsAll m c

/-- Under each name the same method is set last, and it accepts what any of that name does. -/
def SameLast (t : TwoOrders) : Prop :=
  ∀ m ∈ t.methods, ∃ c, (t.first.last (exactKey m.name)).map Prod.fst = some c ∧
    (t.second.last (exactKey m.name)).map Prod.fst = some c ∧ t.AcceptsAll m c

/-- Every id leads back to its callback when the functions are called. -/
def Registered (t : TwoOrders) : Prop :=
  t.first.stop.1.registry.Registered ∧ t.second.stop.1.registry.Registered

end TwoOrders

/-- Whether the exports depend on the order of the methods is up to those that are set last, and to
    the callbacks their ids lead to, which are their own where the callbacks are registered. -/
theorem exports_agree_iff (t : TwoOrders) :
    (t.Agrees ↔ t.SameCalled) ∧ (t.Registered → (t.SameCalled ↔ t.SameLast)) := by
  have only : ∀ (e : Export) {n c}, (∀ x, e.Invokes n x ↔ x = c) ↔ e.Called (exactKey n) c := by
    intro e n c
    constructor
    · intro invokes
      exact (e.invokes_iff n c).1 ((invokes c).2 rfl)
    · intro called x
      rw [e.invokes_iff]
      constructor
      · exact fun other => Export.called_unique other called
      · rintro rfl
        exact called
  constructor
  · constructor
    · intro agrees m member
      obtain ⟨c, first, second, accepts⟩ := agrees m member
      exact ⟨c, (only t.first).1 first, (only t.second).1 second, accepts⟩
    · intro called m member
      obtain ⟨c, first, second, accepts⟩ := called m member
      exact ⟨c, (only t.first).2 first, (only t.second).2 second, accepts⟩
  · rintro ⟨first, second⟩
    constructor
    · intro called m member
      obtain ⟨c, one, two, accepts⟩ := called m member
      exact ⟨c, (Export.called_registered first c).1 one, (Export.called_registered second c).1 two, accepts⟩
    · intro last m member
      obtain ⟨c, one, two, accepts⟩ := last m member
      exact ⟨c, (Export.called_registered first c).2 one, (Export.called_registered second c).2 two, accepts⟩

end Exports

section Overloads

def waitName : JavaString := [0x77, 0x61, 0x69, 0x74]
def waitKey : PropertyKey := .name (.ofUnits waitName)
def waitBytes : List UInt8 := ModifiedUtf8.encode waitName

/-- A client that holds on to everything. -/
def holdsAll : Setting := ⟨0, fun _ => True, fun _ => False, fun _ => True⟩

theorem refers_nothing {st : Store Addr JSString JSValue} (empty : ∀ p o, st p = some o → o = emptyObject)
    (v : JSValue) :
    ¬ Refers holdsAll.roots st v := by
  rintro ⟨p, o, k, b, -, here, own⟩
  rw [empty p o here] at own
  cases own

def World.withFunction (w : World) (n : Addr) (f : JSCallFunction) : World :=
  ((((w.alloc n (some .function)).bind (·.toNative n)).bind fun v =>
    (exec (.setFuncCallback (.object n) f.hashCode f) v).map Prod.snd).bind (·.toHeap n)).getD w

/-- The call that sets the property of a method in the object at 2, with the function made at an
    address that is free. -/
theorem can_setMethod {w u v t z : World} {st : Objects} {n : Addr} {f : JSCallFunction} {x : ObjectData}
    (alloc : w.alloc n (some .function) = some u) (given : u.toNative n = some v)
    (made : bridge.Reply (.engine .newCallbackFunction) w (.value (.object n)) v)
    (tied : exec (.setFuncCallback (.object n) f.hashCode f) v = some (.unit, t))
    (named : bridge.Reply (.engine (.defineName (.object n) waitBytes)) t (.int 1) t)
    (passed : t.toHeap n = some z)
    (set : SilentReply (.engine (.setPropertyStr (.object 2) waitBytes (.object n))) t (.int 1) z)
    (empty : st.store n = none) (unknown : ¬ Refers holdsAll.roots st.store (.object n))
    (stores : Writes arrayLength (st.update n emptyObject).store 2 waitKey (.object n) (.stored x)) :
    Can (stored holdsAll.roots) ((NativeOp.setProperty 2 (some waitName) (some (.callFunction f))).program 0) []
      (w, st) fun b _ s => b = .unit ∧ s = (z, (st.update n emptyObject).update 2 x) := by
  let st₁ : Objects := st.update n emptyObject
  have bare : ∀ k, ((st.atoms k || (emptyObject.own (.name k)).isSome) = true) → st.atoms k = true := by
    intro k there
    rcases Bool.or_eq_true_iff.1 there with known | own
    · exact known
    · cases own
  have makes : (stored holdsAll.roots).reply (.engine .newCallbackFunction) (w, st) (.value (.object n))
      (v, st₁) := by
    refine ⟨made, fun _ => ⟨⟨⟨st.store, emptyObject, .refl _, empty, unknown, rfl⟩, ?_⟩, fun q _ => ?_⟩⟩
    · exact fun k there => Or.inl (bare k there)
    · change v.registry.callbackAt q = w.registry.callbackAt q
      rw [registry_toNative given, registry_alloc alloc]
      rfl
  have ties : (stored holdsAll.roots).exec (.setFuncCallback (.object n) f.hashCode f) (v, st₁) =
      some (.unit, (t, st₁)) := by
    change (exec (.setFuncCallback (.object n) f.hashCode f) v).map _ = _
    rw [tied]
    rfl
  have names : (stored holdsAll.roots).reply (.engine (.defineName (.object n) waitBytes)) (t, st₁) (.int 1)
      (t, st₁) := by
    refine ⟨named, fun _ => ⟨⟨⟨some emptyObject, ?_⟩, fun k there => Or.inl there⟩, fun _ _ => rfl⟩⟩
    have same : Function.update st₁.store n (some emptyObject) = st₁.store := Function.update_idem _ _ _
    rw [same]
    exact .refl _
  have sets : engineReply holdsAll.roots (.setPropertyStr (.object 2) waitBytes (.object n))
      (t, st₁) (.int 1) (z, st₁.update 2 x) := by
    have plain : Access.plain st₁ (.set 2 waitKey (.object n)) := by
      refine ⟨_, stores, fun code => ?_⟩
      cases code
    have key : propertyKey st₁.atoms waitBytes = some waitKey := by
      unfold propertyKey
      split <;> rfl
    have access : (EngineCall.setPropertyStr (.object 2) waitBytes (.object n)).access st₁.atoms =
        some (.set 2 waitKey (.object n)) := by
      simp only [EngineCall.access, key, Option.map_some]
    simp only [engineReply, access]
    refine Or.inl ⟨plain, set, Or.inl ⟨x, stores, rfl, .refl _, fun k there => Or.inl there⟩, fun q _ => ?_⟩
    change z.registry.callbackAt q = t.registry.callbackAt q
    rw [registry_toHeap passed]
  exact can_prim rfl (can_enter makes (can_prim rfl (can_prim ties (can_enter names (can_enter sets
    (can_ret ⟨rfl, rfl⟩))))))

theorem reply_alone {op : NativeOp} {s u : World × Objects} {b : Answer} (clear : s.1.javaException = none)
    (can : Can (stored holdsAll.roots) (op.program 0) [] s fun a _ t => a = b ∧ t = u)
    (quiet : u.1.javaException = none) : StoredReply holdsAll op s b u := by
  obtain ⟨a, h, t, run, rfl, rfl⟩ := can
  refine ⟨s.1, s.2, h, a, t, ⟨[], [], [], rfl⟩, .refl _, clear, run, fun _ _ => trivial,
    (seen_clear quiet).symm, ?_⟩
  obtain ⟨w, st⟩ := t
  cases w
  cases quiet
  rfl

theorem export_two (x y : Exported) (named : x.1.name = waitName) (named' : y.1.name = waitName)
    (apart : x.2 ≠ y.2) : ∃ e : Export, e.methods = [x, y] ∧ e.last waitKey = some y ∧
      e.stop.1.callFunctionMap y.2.hashCode = some y.2 := by
  obtain ⟨⟨name, identity, accepts⟩, f⟩ := x
  obtain ⟨⟨name', identity', accepts'⟩, g⟩ := y
  subst named named'
  let w : World := .fresh 1 fun _ => []
  let st : Objects := .one 1 emptyObject fun _ => rfl
  let w₁ : World := ((w.alloc 2 (some .plain)).bind (·.give (.object 2))).getD w
  let w₂ : World := { w₁ with
    handles := w₁.handles ++ [⟨.jsObject, 2, 0, w₁.serialAt 2, false, false⟩]
    values := Function.update w₁.values 2 true }
  let st₁ : Objects := st.update 2 emptyObject
  have empty : ∀ p o, st.store p = some o → o = emptyObject := by
    intro p o here
    exact (Option.some.inj (of_ite_some here)).symm
  have empty₁ : ∀ p o, st₁.store p = some o → o = emptyObject := by
    intro p o here
    by_cases at_two : p = 2
    · subst at_two
      exact (Option.some.inj here).symm
    · exact empty p o ((Function.update_of_ne at_two _ st.store).symm.trans here)
  have parses : Can (stored holdsAll.roots) ((NativeOp.parseJSON (some [0x7B, 0x7D])).program 0) [] (w, st)
      fun b _ u => b = .javaReturn (some (.handle 0 .jsObject 2 0)) ∧ u = (w₂, st₁) := by
    have reply : (stored holdsAll.roots).reply (.engine (.parseJSON (ascii "{}"))) (w, st)
        (.value (.object 2)) (w₁, st₁) := by
      refine ⟨⟨_, _, [.event (.engine (.alloc 2 (some .plain)))], rfl, rfl, rfl⟩, fun _ => ⟨⟨?_, ?_⟩, ?_⟩⟩
      · exact ⟨st.store, emptyObject, .refl _, rfl, fun _ => ⟨rfl, rfl, rfl, rfl, rfl⟩, .refl _⟩
      · intro n there
        cases there
      · rintro q (⟨member, -⟩ | ⟨-, before | given⟩)
        · cases member
        · exact absurd before (refers_nothing empty _)
        · cases given
    have array : (stored holdsAll.roots).reply (.engine (.isArray (.object 2))) (w₁, st₁) (.int 0) (w₁, st₁) :=
      ⟨⟨_, _, [], rfl, rfl, rfl⟩, fun _ => ⟨⟨.refl _, fun _ there => Or.inl there⟩, fun _ _ => rfl⟩⟩
    exact can_prim rfl (can_enter reply (can_prim rfl (can_enter array (can_prim rfl (can_prim rfl
      (can_prim rfl (can_ret ⟨rfl, rfl⟩)))))))
  let w₃ : World := (w₂.putCallFunction f).withFunction 3 f
  let x₃ : ObjectData := emptyObject.put waitKey (.object 3)
  let st₃ : Objects := (st₁.update 3 emptyObject).update 2 x₃
  let w₄ : World := (w₃.putCallFunction g).withFunction 4 g
  let x₄ : ObjectData := x₃.put waitKey (.object 4)
  let st₄ : Objects := (st₃.update 4 emptyObject).update 2 x₄
  have first := @can_setMethod (w₂.putCallFunction f) _ _ _ w₃ st₁ 3 f x₃ rfl rfl
    ⟨_, _, [.event (.engine (.alloc 3 (some .function)))], rfl, rfl, rfl⟩ rfl ⟨_, _, [], rfl, rfl, rfl⟩ rfl
    ⟨_, _, [], rfl, rfl, rfl, rfl⟩ rfl (refers_nothing empty₁ _) ⟨0, rfl⟩
  have unknown : ¬ Refers holdsAll.roots st₃.store (.object 4) := by
    intro refers
    have here : Function.update st₁.store 3 (some emptyObject) 2 = some emptyObject := rfl
    rcases refers_put here refers with same | before
    · cases same
    · refine refers_nothing ?_ _ before
      intro p o here
      by_cases at_three : p = 3
      · subst at_three
        exact (Option.some.inj here).symm
      · exact empty₁ p o ((Function.update_of_ne at_three _ st₁.store).symm.trans here)
  have second := @can_setMethod (w₃.putCallFunction g) _ _ _ w₄ st₃ 4 g x₄ rfl rfl
    ⟨_, _, [.event (.engine (.alloc 4 (some .function)))], rfl, rfl, rfl⟩ rfl ⟨_, _, [], rfl, rfl, rfl⟩ rfl
    ⟨_, _, [], rfl, rfl, rfl, rfl⟩ rfl unknown ⟨0, rfl⟩
  have stores : ∀ k c, Writes arrayLength st₄.store 1 k c (.stored (emptyObject.put k c)) := fun k c => ⟨0, rfl⟩
  let k : PropertyKey := .name (.ofUnits [])
  let w₅ : World := (w₄.retain 2).getD w₄
  let u : World × Objects := ((w₅.toHeap 2).getD w₅, st₄.update 1 (emptyObject.put k (.object 2)))
  have third : Can (stored holdsAll.roots)
      ((NativeOp.setProperty 1 (some []) (some (.handle 0 .jsObject 2 0))).program 0) [] (w₄, st₄)
      fun b _ s => b = .unit ∧ s = u := by
    have reply : (stored holdsAll.roots).reply (.engine (.setPropertyStr (.object 1) [] (.object 2)))
        (w₅, st₄) (.int 1) u := by
      refine Or.inl ⟨⟨_, stores k _, ?_⟩, ⟨_, _, [], rfl, rfl, rfl, rfl⟩,
        Or.inl ⟨_, stores k _, rfl, .refl _, fun _ there => Or.inl there⟩, ?_⟩
      · intro code
        cases code
      · intro q _
        have passed : w₅.toHeap 2 = some u.1 := rfl
        rw [registry_toHeap passed]
    exact can_prim rfl (can_prim rfl (can_prim rfl (can_enter reply (can_ret ⟨rfl, rfl⟩))))
  let methods : List Exported := [(⟨waitName, identity, accepts⟩, f), (⟨waitName, identity', accepts'⟩, g)]
  have fills : ∃ h, Exec (storedJava holdsAll) (Java.setMethods (some (.handle 0 .jsObject 2 0))
      (methods.map Exported.entry) (Java.setProperty (some (.handle 0 .jsObject 1 0)) (some [])
      (some (.handle 0 .jsObject 2 0)))) (w₂, st₁) h (.returned .unit) u :=
    ⟨_, .prim rfl (.enter (reply_alone rfl first rfl) (.prim rfl (.enter (reply_alone rfl second rfl)
      (.enter (reply_alone rfl third rfl) (.ret _ _)))))⟩
  obtain ⟨h, fills⟩ := fills
  have bytes : ∀ {n}, n ∈ nameBytes methods → n = waitBytes := by
    intro n member
    rcases List.mem_cons.1 member with rfl | later
    · rfl
    · exact List.mem_singleton.1 later
  have ascii : decodedKey waitBytes = some (.name (latinText waitBytes)) := by decide
  have own : [f, g].Nodup := by simpa using apart
  have takes : TakesAny st₁ 2 waitBytes := by
    refine ⟨rfl, ?_⟩
    rintro key (⟨-, known, -⟩ | decoded) c
    · cases known
    · cases decoded
      exact ⟨_, 0, rfl⟩
  let e : Export := ⟨holdsAll, ⟨0, .jsObject, 1, 0⟩, trivial, [], methods, own, by
      intro n member
      rcases List.mem_cons.1 member with rfl | later
      · exact Or.inl rfl
      · rw [bytes later]
        exact Or.inl ascii,
    (w, st), rfl, fun atoms key _ c => ⟨_, 0, rfl⟩, ⟨0, .jsObject, 2, 0⟩, trivial, (w₂, st₁),
    reply_alone rfl parses rfl, by
      intro n member accented
      rw [bytes member] at accented
      exact absurd ascii accented,
    fun n member => by
      rw [bytes member]
      exact takes,
    h, .unit, u, fills⟩
  refine ⟨e, rfl, rfl, ?_⟩
  have mapped : u.1.callFunctionMap = Function.update (Function.update (fun _ => none) f.hashCode (some f))
      g.hashCode (some g) := rfl
  change u.1.callFunctionMap g.hashCode = some g
  rw [mapped, Function.update_self]

/-- Two overloads in either order: the one that is listed last is the one that can be called. -/
theorem overloads_conflict : ¬ ∀ t : TwoOrders, t.Agrees := by
  intro agrees
  let x : Exported := (⟨waitName, 0, fun args => args.length = 0⟩, ⟨0, 0⟩)
  let y : Exported := (⟨waitName, 1, fun args => args.length = 1⟩, ⟨1, 1⟩)
  obtain ⟨e, listed, last, mapped⟩ := export_two x y rfl rfl (by decide)
  obtain ⟨e', listed', last', mapped'⟩ := export_two y x rfl rfl (by decide)
  have same : (e.methods.map Prod.fst).Perm (e'.methods.map Prod.fst) := by
    rw [listed, listed']
    exact List.Perm.swap _ _ _
  have member : x.1 ∈ e.methods.map Prod.fst := by
    rw [listed]
    exact List.mem_cons_self
  obtain ⟨c, first, second, -⟩ := agrees ⟨e, e', same⟩ x.1 member
  have calls : e.Called (exactKey waitName) y.1 := ⟨y, y.2, last, mapped, by simp [listed]⟩
  have calls' : e'.Called (exactKey waitName) x.1 := ⟨x, x.2, last', mapped', by simp [listed']⟩
  have one : y.1 = c := (first y.1).1 ((e.invokes_iff waitName y.1).2 calls)
  have two : x.1 = c := (second x.1).1 ((e'.invokes_iff waitName x.1).2 calls')
  have identities : y.1.identity = x.1.identity := congrArg Method.identity (one.trans two.symm)
  revert identities
  decide

end Overloads
end QuickJSBridge
