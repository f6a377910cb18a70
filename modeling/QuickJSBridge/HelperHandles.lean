import QuickJSBridge.TableEffects
import QuickJSBridge.OutputStatements

/- The helper methods of the Java classes: each is a few native calls in a row, and some of the
   handles these make are dropped on the way. -/
namespace QuickJSBridge
open HostProgram ReentrantMachine

namespace JavaObject

def isString : JavaObject → Bool
  | .string _ => true
  | _ => false
def isInteger : JavaObject → Bool
  | .integer _ => true
  | _ => false
def isBoolean : JavaObject → Bool
  | .boolean _ => true
  | _ => false
def isDouble : JavaObject → Bool
  | .double _ => true
  | _ => false
def isLong : JavaObject → Bool
  | .long _ => true
  | _ => false
def isJSObject : JavaObject → Bool
  | .handle _ _ _ _ => true
  | _ => false
def isJSFunction : JavaObject → Bool
  | .handle _ .jsFunction _ _ => true
  | _ => false
def isJSArray : JavaObject → Bool
  | .handle _ .jsArray _ _ => true
  | _ => false

end JavaObject

namespace Java

def castTo (ok : JavaObject → Bool) : Answer → Answer
  | .javaReturn (some o) => if ok o then .javaReturn (some o) else .javaThrow .classCast
  | a => a

def getProperty (jsObj : Option JavaObject) (name : Option JavaString) : JavaProgram :=
  onHandle jsObj fun _ pointer _ => native (.getProperty pointer name)

/-- `value instanceof T ? (T) value : null`. -/
def onlyOf (ok : JavaObject → Bool) : Answer → Answer
  | .javaReturn o => .javaReturn (o.filter ok)
  | a => a

def typedGetter (ok : JavaObject → Bool) (jsObj : Option JavaObject) (name : Option JavaString) :
    JavaProgram :=
  (getProperty jsObj name).bind fun a => .ret (onlyOf ok a)

def getString := typedGetter JavaObject.isString
def getInteger := typedGetter JavaObject.isInteger
def getBoolean := typedGetter JavaObject.isBoolean
def getDouble := typedGetter JavaObject.isDouble
def getLong := typedGetter JavaObject.isLong
def getJSObject := typedGetter JavaObject.isJSObject
def getJSArray := typedGetter JavaObject.isJSArray

def toString (jsObj : Option JavaObject) (fuel : Nat) : JavaProgram :=
  (getJSFunction jsObj (some (latin "toString"))).bind fun a =>
    match a with
    | .javaReturn toString => (call toString [] fuel).bind fun a => .ret (castTo JavaObject.isString a)
    | a => .ret a

def getNames (jsObj : Option JavaObject) (fuel : Nat) : JavaProgram :=
  onHandle jsObj fun _ _ _ =>
    (native (.evaluate (some (latin "Object.getOwnPropertyNames")) (some (latin "unknown.js")) fuel)).bind
      fun a =>
      match castTo JavaObject.isJSFunction a with
      | .javaReturn getOwnPropertyNames =>
        (call getOwnPropertyNames [jsObj] fuel).bind fun a => .ret (castTo JavaObject.isJSArray a)
      | a => .ret a

def setMethods (jsObj : Option JavaObject) :
    List (JavaString × JSCallFunction) → JavaProgram → JavaProgram
  | [], p => p
  | (name, f) :: methods, p =>
    andThen (onHandle jsObj fun _ _ _ => setProperty jsObj (some name) (some (.callFunction f)))
      (setMethods jsObj methods p)

/-- `setProperty` of an object with its class. -/
def setPropertyOfClass (jsObj : Option JavaObject) (name : Option JavaString)
    (methods : List (JavaString × JSCallFunction)) : JavaProgram :=
  onHandle jsObj fun _ _ _ =>
    (native (.parseJSON (some [0x7B, 0x7D]))).bind fun a =>
      match castTo JavaObject.isJSObject a with
      | .javaReturn created => setMethods created methods (setProperty jsObj name created)
      | a => .ret a

end Java

inductive Helper where
  | getString (jsObj : Option JavaObject) (name : Option JavaString)
  | getInteger (jsObj : Option JavaObject) (name : Option JavaString)
  | getBoolean (jsObj : Option JavaObject) (name : Option JavaString)
  | getDouble (jsObj : Option JavaObject) (name : Option JavaString)
  | getLong (jsObj : Option JavaObject) (name : Option JavaString)
  | getJSObject (jsObj : Option JavaObject) (name : Option JavaString)
  | getJSFunction (jsObj : Option JavaObject) (name : Option JavaString)
  | getJSArray (jsObj : Option JavaObject) (name : Option JavaString)
  | toString (jsObj : Option JavaObject) (fuel : Nat)
  | getNames (jsObj : Option JavaObject) (fuel : Nat)
  | setPropertyOfClass (jsObj : Option JavaObject) (name : Option JavaString)
      (methods : List (JavaString × JSCallFunction))
  | invokeMethod (thiz : Option JavaObject) (name : Option JavaString)
      (args : List (Option JavaObject)) (fuel : Nat)
  | invokeFunction (name : Option JavaString) (args : List (Option JavaObject)) (fuel : Nat)

def Helper.program : Helper → JavaProgram
  | .getString jsObj name => Java.getString jsObj name
  | .getInteger jsObj name => Java.getInteger jsObj name
  | .getBoolean jsObj name => Java.getBoolean jsObj name
  | .getDouble jsObj name => Java.getDouble jsObj name
  | .getLong jsObj name => Java.getLong jsObj name
  | .getJSObject jsObj name => Java.getJSObject jsObj name
  | .getJSFunction jsObj name => Java.getJSFunction jsObj name
  | .getJSArray jsObj name => Java.getJSArray jsObj name
  | .toString jsObj fuel => Java.toString jsObj fuel
  | .getNames jsObj fuel => Java.getNames jsObj fuel
  | .setPropertyOfClass jsObj name methods => Java.setPropertyOfClass jsObj name methods
  | .invokeMethod thiz name args fuel => Java.invokeMethod thiz name args fuel
  | .invokeFunction name args fuel => Java.invokeFunction name args fuel

section Replies

/-- What a native call came to: what it returned, and the Java exception that was pending then. -/
structure Reply where
  op : NativeOp
  result : Answer
  thrown : Option JavaException

def Answer.handleAddress : Answer → Option Nat
  | .javaReturn (some (.handle _ _ p _)) => some p
  | _ => none

namespace Reply

def seen (r : Reply) : Answer :=
  match r.thrown with
  | some e => .javaThrow e
  | none => r.result

def entries (r : Reply) : List Entry := r.op.entries r.result

def address (r : Reply) : Option Nat := r.result.handleAddress

def Throws (r : Reply) : Prop := ∃ e, r.seen = .javaThrow e

def Passes (ok : JavaObject → Bool) (r : Reply) : Prop :=
  r.thrown = none ∧ ∃ o, r.result = .javaReturn (some o) ∧ ok o = true

variable (table : Nat → Bool)

/-- The call made no handle, or one for an object that was registered before or is that of one
    of these. -/
def Covered (others : List Reply) (r : Reply) : Prop :=
  ∀ p, r.address = some p → table p = true ∨ ∃ o ∈ others, o.address = some p

def Unregistered (r : Reply) : Prop := ∀ p, r.address = some p → table p = false

def PassedOn (ok : JavaObject → Bool) (r : Reply) : Prop := r.Passes ok ∨ r.Covered table []

end Reply

/-- What the native calls of a helper have to come to, in the order they are made, for the table
    to keep its entries. The typed getters drop a value of another type, and getString, getInteger,
    getBoolean, getDouble and getLong every object; toString and getNames drop the function they
    call, and setProperty with a class the object it makes. invokeMethod frees the function it has
    read, and invokeFunction the global object and that function, each unless it throws before. -/
def Helper.Keeps (table : Nat → Bool) : Helper → List Reply → Prop
  | .getString _ _, [value] | .getInteger _ _, [value] | .getBoolean _ _, [value]
  | .getDouble _ _, [value] | .getLong _ _, [value] => value.Covered table []
  | .getJSObject _ _, [value] => value.PassedOn table JavaObject.isJSObject
  | .getJSFunction _ _, [value] => value.PassedOn table JavaObject.isJSFunction
  | .getJSArray _ _, [value] => value.PassedOn table JavaObject.isJSArray
  | .toString _ _, [function] => function.Covered table []
  | .toString _ _, [function, text] => function.Covered table [] ∧ text.Covered table []
  | .getNames _ _, [function] => function.Covered table []
  | .getNames _ _, [function, names] =>
    (names.Passes JavaObject.isJSArray ∧ function.Covered table [names]) ∨
      (function.Covered table [] ∧ names.Covered table [])
  | .setPropertyOfClass _ _ _, created :: _ => created.Covered table []
  | .invokeMethod _ _ _ _, [value] => value.Covered table []
  | .invokeMethod _ _ _ _, [function, result, free] =>
    function.Unregistered table ∧ ((¬ result.Throws ∧ ¬ free.Throws) ∨ result.Covered table [function])
  | .invokeFunction _ _ _, [_, value] => value.Covered table []
  | .invokeFunction _ _ _, [globalObject, value, _] =>
    globalObject.Unregistered table ∧ value.Covered table [globalObject]
  | .invokeFunction _ _ _, [globalObject, function, result, _] =>
    globalObject.Unregistered table ∧ function.Covered table [globalObject] ∧
      result.Covered table [globalObject]
  | .invokeFunction _ _ _, [globalObject, function, result, _, free] =>
    globalObject.Unregistered table ∧ function.Unregistered table ∧
      ((¬ result.Throws ∧ ¬ free.Throws) ∨ result.Covered table [globalObject, function])
  | _, _ => True

end Replies

section Track

structure Track where
  world : World
  replies : List Reply

def Meanwhile (w w' : World) : Prop :=
  ∃ labels stack stack', bridge.run labels ⟨w, .outside, stack⟩ = some ⟨w', .outside, stack'⟩

def seen (b : Answer) (u : World) : Answer :=
  match u.javaException with
  | some e => .javaThrow e
  | none => b

def NativeReply (t : ThreadId) (quiet : Bool) (op : NativeOp) (s : Track) (a : Answer) (s' : Track) :
    Prop :=
  ∃ w h b u, Meanwhile s.world w ∧ Exec bridge.meaning (op.program t) w h (.returned b) u ∧
    (quiet = true → w.values = s.world.values ∧ Undisturbed w h) ∧
    a = seen b u ∧ s' = ⟨{ u with javaException := none }, s.replies ++ [⟨op, b, u.javaException⟩]⟩

def javaMeaning (t : ThreadId) (quiet : Bool) : Meaning Track JavaPrim NativeOp Answer where
  exec c s := some ((javaExec c s.world).1, ⟨(javaExec c s.world).2, s.replies⟩)
  reply := NativeReply t quiet

end Track

section Tables
variable {table : Nat → Bool} {returned : Option Nat} {replies made : List Reply} {freed : List Nat}

/-- The table afterwards is the one before, with at most the returned handle's address added. -/
def KeepsTable (before : Nat → Bool) (returned : Option Nat) (after : Nat → Bool) : Prop :=
  ∀ p, (before p = true → after p = true) ∧ (after p = true → before p = true ∨ returned = some p)

def tableBy (table : Nat → Bool) (replies : List Reply) : Nat → Bool :=
  tableAfter table (replies.flatMap Reply.entries)

theorem made_after (table : Nat → Bool) (ps : List Nat) (p : Nat) :
    tableAfter table (ps.map .made) p = true ↔ p ∈ ps ∨ table p = true := by
  induction ps generalizing table with
  | nil => simp [tableAfter]
  | cons q ps ih =>
    have step : tableAfter table ((q :: ps).map .made) =
      tableAfter (Function.update table q true) (ps.map .made) := rfl
    rw [step, ih, Function.update_apply, List.mem_cons]
    by_cases same : p = q
    · simp [same]
    · simp [same]

theorem freed_after (table : Nat → Bool) (ps : List Nat) (p : Nat) :
    tableAfter table (ps.map .freed) p = true ↔ p ∉ ps ∧ table p = true := by
  induction ps generalizing table with
  | nil => simp [tableAfter]
  | cons q ps ih =>
    have step : tableAfter table ((q :: ps).map .freed) =
      tableAfter (Function.update table q false) (ps.map .freed) := rfl
    rw [step, ih, Function.update_apply, List.mem_cons]
    by_cases same : p = q
    · simp [same]
    · simp [same]

def Totals (replies made : List Reply) (freed : List Nat) : Prop :=
  replies.flatMap Reply.entries = (made.filterMap Reply.address).map .made ++ freed.map .freed

theorem settled_after (settles : Totals replies made freed) (p : Nat) :
    tableBy table replies p = true ↔ p ∉ freed ∧ ((∃ r ∈ made, r.address = some p) ∨ table p = true) := by
  unfold tableBy
  rw [settles, tableAfter, List.foldl_append]
  exact (freed_after _ freed p).trans (by rw [← tableAfter, made_after, List.mem_filterMap])

theorem keeps_iff (settles : Totals replies made freed) :
    KeepsTable table returned (tableBy table replies) ↔ (∀ p ∈ freed, table p = false) ∧
      ∀ r ∈ made, ∀ p, r.address = some p → p ∈ freed ∨ returned = some p ∨ table p = true := by
  simp only [KeepsTable, settled_after settles]
  constructor
  · intro keeps
    constructor
    · intro p frees
      cases known : table p with
      | false => rfl
      | true => exact absurd frees ((keeps p).1 known).1
    · intro r member p here
      by_cases frees : p ∈ freed
      · exact Or.inl frees
      · exact Or.inr ((keeps p).2 ⟨frees, Or.inl ⟨r, member, here⟩⟩).symm
  · rintro ⟨frees, makes⟩ p
    constructor
    · intro known
      refine ⟨fun freed => ?_, Or.inr known⟩
      cases (frees p freed).symm.trans known
    · rintro ⟨kept, ⟨r, member, here⟩ | known⟩
      · rcases makes r member p here with freed | returned | known
        · exact absurd freed kept
        · exact Or.inr returned
        · exact Or.inl known
      · exact Or.inl known

theorem entries_result {r : Reply} (returns : r.op.returnsResult = true) :
    r.entries = (r.address.map .made).toList := by
  obtain ⟨op, result, thrown⟩ := r
  have made : entriesFor result.toJava = (result.handleAddress.map .made).toList := by
    cases result with
    | javaReturn o =>
      cases o with
      | none => rfl
      | some o => cases o <;> rfl
    | _ => rfl
  cases op <;> first | exact made | cases returns

theorem entries_free {r : Reply} {p : Nat} (frees : r.op = .freeValue p) : r.entries = [.freed p] := by
  obtain ⟨op, result, thrown⟩ := r
  cases frees
  rfl

theorem entries_other {r : Reply} (returns : r.op.returnsResult = false)
    (other : ∀ p, r.op ≠ .freeValue p) : r.entries = [] := by
  obtain ⟨op, result, thrown⟩ := r
  cases op <;> first | rfl | exact absurd rfl (other _) | cases returns

end Tables

section Yields
variable {R S : Type} {t : ThreadId} {quiet : Bool}

def Yields (t : ThreadId) (quiet : Bool) (p : Prog JavaPrim NativeOp Answer R)
    (post : R → List Reply → Prop) : Prop :=
  ∀ s h r s', Exec (javaMeaning t quiet) p s h (.returned r) s' →
    ∃ replies, s'.replies = s.replies ++ replies ∧ post r replies

theorem yields_ret {r : R} {post : R → List Reply → Prop} (now : post r []) : Yields t quiet (.ret r) post := by
  intro s h r' s' run
  obtain ⟨-, same, rfl⟩ := exec_ret run
  cases same
  exact ⟨[], (List.append_nil _).symm, now⟩

theorem yields_bind {p : Prog JavaPrim NativeOp Answer R} {f : R → Prog JavaPrim NativeOp Answer S}
    {mid : R → List Reply → Prop} {post : S → List Reply → Prop} (first : Yields t quiet p mid)
    (rest : ∀ r early, mid r early → Yields t quiet (f r) fun x late => post x (early ++ late)) :
    Yields t quiet (p.bind f) post := by
  intro s h x s' run
  rcases exec_bind run with ⟨r, u, before, after, one, two, -⟩ | ⟨-, dead⟩
  · obtain ⟨early, begun, held⟩ := first s before r u one
    obtain ⟨late, ended, done⟩ := rest r early held u after x s' two
    exact ⟨early ++ late, by rw [ended, begun, List.append_assoc], done⟩
  · cases dead

theorem yields_mono {p : Prog JavaPrim NativeOp Answer R} {mid post : R → List Reply → Prop}
    (yields : Yields t quiet p mid) (weaker : ∀ r replies, mid r replies → post r replies) :
    Yields t quiet p post := by
  intro s h r s' run
  obtain ⟨replies, same, held⟩ := yields s h r s' run
  exact ⟨replies, same, weaker r replies held⟩

theorem yields_prim {c : JavaPrim} {p : JavaProgram} {post : Answer → List Reply → Prop}
    (yields : Yields t quiet p post) : Yields t quiet (.prim c fun _ => p) post := by
  intro s h r s' run
  obtain ⟨a, u, rest, acts, tail, -⟩ := exec_prim run
  cases acts
  exact yields ⟨(javaExec c s.world).2, s.replies⟩ rest r s' tail

def Reply.Of (t : ThreadId) (op : NativeOp) (r : Reply) : Prop :=
  r.op = op ∧ ∃ w h u, Exec bridge.meaning (op.program t) w h (.returned r.result) u

theorem yields_enter {op : NativeOp} {next : Answer → JavaProgram} {post : Answer → List Reply → Prop}
    (rest : ∀ r : Reply, r.Of t op → Yields t quiet (next r.seen) fun a late => post a (r :: late)) :
    Yields t quiet (.enter op next) post := by
  intro s h a s' run
  obtain ⟨b, u, later, ⟨w, h', b', u', -, native, -, rfl, rfl⟩, tail, -⟩ := exec_enter run
  obtain ⟨late, ended, done⟩ := rest ⟨op, b', u'.javaException⟩ ⟨rfl, w, h', u', native⟩ _ later a s' tail
  exact ⟨_ :: late, by rw [ended, List.append_assoc]; rfl, done⟩

theorem yields_native (op : NativeOp) : Yields t quiet (Java.native op) fun a replies =>
    ∃ r : Reply, r.Of t op ∧ replies = [r] ∧ a = r.seen :=
  yields_enter fun r from_ => yields_ret ⟨r, from_, rfl, rfl⟩

theorem yields_noHandle {o : Option JavaObject} {p : Nat → Nat → Nat → JavaProgram}
    (none : ∀ id cls pointer objPointer, o ≠ some (.handle id cls pointer objPointer)) :
    Yields t quiet (Java.onHandle o p) fun a replies => replies = [] ∧ ∃ e, a = .javaThrow e := by
  unfold Java.onHandle
  split
  · exact absurd rfl (none _ _ _ _)
  · exact yields_ret ⟨rfl, _, rfl⟩
  · exact yields_ret ⟨rfl, _, rfl⟩

theorem yields_onHandle {o : Option JavaObject} {p : Nat → Nat → Nat → JavaProgram} (calls : NativeOp → Prop)
    (one : ∀ id pointer objPointer, Yields t quiet (p id pointer objPointer) fun a replies =>
      ∃ r : Reply, calls r.op ∧ replies = [r] ∧ a = r.seen) :
    Yields t quiet (Java.onHandle o p) fun a replies =>
      (replies = [] ∧ ∃ e, a = .javaThrow e) ∨ ∃ r : Reply, calls r.op ∧ replies = [r] ∧ a = r.seen := by
  unfold Java.onHandle
  split
  · exact yields_mono (one _ _ _) fun _ _ held => Or.inr held
  · exact yields_ret (Or.inl ⟨rfl, _, rfl⟩)
  · exact yields_ret (Or.inl ⟨rfl, _, rfl⟩)

theorem yields_putIfCallFunction {value : Option JavaObject} {p : JavaProgram}
    {post : Answer → List Reply → Prop} (yields : Yields t quiet p post) :
    Yields t quiet (Java.putIfCallFunction value p) post := by
  unfold Java.putIfCallFunction
  split
  · exact yields_prim yields
  · exact yields

theorem yields_putCallFunctions {args : List (Option JavaObject)} {p : JavaProgram}
    {post : Answer → List Reply → Prop} (yields : Yields t quiet p post) :
    Yields t quiet (Java.putCallFunctions args p) post := by
  induction args with
  | nil => exact yields
  | cons arg args ih => exact yields_putIfCallFunction ih

theorem yields_call (id : Nat) (cls : HandleClass) (pointer objPointer : Nat)
    (args : List (Option JavaObject)) (fuel : Nat) :
    Yields t quiet (Java.call (some (.handle id cls pointer objPointer)) args fuel) fun a replies =>
      ∃ r : Reply, r.op.returnsResult = true ∧ replies = [r] ∧ a = r.seen := by
  refine yields_putCallFunctions (yields_mono (yields_native _) ?_)
  rintro a replies ⟨r, ⟨same, -⟩, rest⟩
  exact ⟨r, congrArg _ same, rest⟩

theorem yields_freeValue (id : Nat) (cls : HandleClass) (pointer objPointer : Nat) :
    Yields t quiet (Java.freeValue (some (.handle id cls pointer objPointer))) fun a replies =>
      ∃ r : Reply, r.op = .freeValue pointer ∧ replies = [r] ∧ a = r.seen := by
  refine yields_prim (yields_mono (yields_native _) ?_)
  rintro a replies ⟨r, ⟨same, -⟩, rest⟩
  exact ⟨r, same, rest⟩

theorem yields_getProperty (jsObj : Option JavaObject) (name : Option JavaString) :
    Yields t quiet (Java.getProperty jsObj name) fun a replies =>
      (replies = [] ∧ ∃ e, a = .javaThrow e) ∨
      ∃ r : Reply, r.op.returnsResult = true ∧ replies = [r] ∧ a = r.seen := by
  refine yields_onHandle (fun op => op.returnsResult = true) fun id pointer objPointer => ?_
  refine yields_mono (yields_native _) ?_
  rintro a replies ⟨r, ⟨same, -⟩, rest⟩
  exact ⟨r, congrArg _ same, rest⟩

theorem yields_getJSFunction (jsObj : Option JavaObject) (name : Option JavaString) :
    Yields t quiet (Java.getJSFunction jsObj name) fun a replies =>
      (replies = [] ∧ ∃ e, a = .javaThrow e) ∨ ∃ r : Reply, r.op.returnsResult = true ∧ replies = [r] ∧
        ((r.Passes JavaObject.isJSFunction ∧ ∃ id pointer objPointer, r.address = some pointer ∧
          a = .javaReturn (some (.handle id .jsFunction pointer objPointer))) ∨
        (¬ r.Passes JavaObject.isJSFunction ∧ (a = .javaReturn none ∨ ∃ e, a = .javaThrow e))) := by
  unfold Java.getJSFunction Java.onHandle
  split
  · refine yields_enter fun r from_ => ?_
    have returns : r.op.returnsResult = true := congrArg _ from_.1
    obtain ⟨op, result, thrown⟩ := r
    cases thrown with
    | some e =>
      refine yields_ret (Or.inr ⟨_, returns, rfl, Or.inr ⟨?_, Or.inr ⟨e, rfl⟩⟩⟩)
      rintro ⟨impossible, -⟩
      cases impossible
    | none =>
      dsimp only [Reply.seen]
      split
      · exact yields_ret (Or.inr ⟨_, returns, rfl, Or.inl ⟨⟨rfl, _, rfl, rfl⟩, _, _, _, rfl, rfl⟩⟩)
      · refine yields_ret (Or.inr ⟨_, returns, rfl, Or.inr ⟨?_, Or.inr ⟨_, rfl⟩⟩⟩)
        rintro ⟨-, o, impossible, -⟩
        cases impossible
      next other _ =>
        refine yields_ret (Or.inr ⟨_, returns, rfl, Or.inr ⟨?_, Or.inl rfl⟩⟩)
        rintro ⟨-, o, rfl, function⟩
        unfold JavaObject.isJSFunction at function
        split at function
        · exact other _ _ _ rfl
        · cases function
  · exact yields_ret (Or.inl ⟨rfl, _, rfl⟩)
  · exact yields_ret (Or.inl ⟨rfl, _, rfl⟩)

end Yields

section Judgements
variable {t : ThreadId} {quiet : Bool} {table : Nat → Bool} {ok : JavaObject → Bool}

theorem Reply.covered_mono {r : Reply} {others more : List Reply} (covered : r.Covered table others)
    (within : others ⊆ more) : r.Covered table more := by
  intro p address
  rcases covered p address with known | ⟨o, here, there⟩
  · exact Or.inl known
  · exact Or.inr ⟨o, within here, there⟩

def Judged (x : Helper) (a : Answer) (replies : List Reply) : Prop :=
  ∀ table, KeepsTable table a.handleAddress (tableBy table replies) ↔ x.Keeps table replies

theorem address_thrown {a : Answer} (throws : ∃ e, a = .javaThrow e) : a.handleAddress = none := by
  obtain ⟨e, rfl⟩ := throws
  rfl

theorem address_seen {r : Reply} (returned : ¬ r.Throws) : r.seen.handleAddress = r.address := by
  obtain ⟨op, result, thrown⟩ := r
  cases thrown with
  | none => rfl
  | some e => exact absurd ⟨e, rfl⟩ returned

theorem seen_passes {r : Reply} (passes : r.Passes ok) : ∃ o, r.seen = .javaReturn (some o) ∧ ok o = true ∧
    r.result = .javaReturn (some o) := by
  obtain ⟨op, result, thrown⟩ := r
  obtain ⟨rfl, o, rfl, fine⟩ := passes
  exact ⟨o, rfl, fine, rfl⟩

theorem not_passes {r : Reply} {o : JavaObject} (drops : ¬ r.Passes ok) (seen : r.seen = .javaReturn (some o)) :
    ok o = false := by
  obtain ⟨op, result, thrown⟩ := r
  cases thrown with
  | some e => cases seen
  | none =>
    cases fine : ok o with
    | false => rfl
    | true => exact absurd ⟨rfl, o, seen, fine⟩ drops

theorem address_onlyOf (r : Reply) :
    (r.Passes ok ∧ (Java.onlyOf ok r.seen).handleAddress = r.address) ∨
      (¬ r.Passes ok ∧ (Java.onlyOf ok r.seen).handleAddress = none) := by
  by_cases passes : r.Passes ok
  · obtain ⟨o, seen, fine, result⟩ := seen_passes passes
    refine Or.inl ⟨passes, ?_⟩
    simp only [Java.onlyOf, seen, Option.filter_some, fine, if_true, Reply.address, result]
  · refine Or.inr ⟨passes, ?_⟩
    cases here : r.seen with
    | javaReturn o =>
      cases o with
      | none => rfl
      | some o =>
        simp only [Java.onlyOf, Option.filter_some, not_passes passes here]
        rfl
    | _ => rfl

theorem address_castTo (ok : JavaObject → Bool) (r : Reply) :
    (r.Passes ok ∧ (Java.castTo ok r.seen).handleAddress = r.address) ∨
      (¬ r.Passes ok ∧ (Java.castTo ok r.seen).handleAddress = none) := by
  by_cases passes : r.Passes ok
  · obtain ⟨o, seen, fine, result⟩ := seen_passes passes
    refine Or.inl ⟨passes, ?_⟩
    simp [Java.castTo, seen, fine, Reply.address, result]
  · refine Or.inr ⟨passes, ?_⟩
    cases here : r.seen with
    | javaReturn o =>
      cases o with
      | none => rfl
      | some o => simp [Java.castTo, not_passes passes here, Answer.handleAddress]
    | _ => rfl

theorem totals_results {made : List Reply} (returns : ∀ r ∈ made, r.op.returnsResult = true) :
    Totals made made [] := by
  induction made with
  | nil => rfl
  | cons r made ih =>
    have rest := ih fun r' later => returns r' (List.mem_cons_of_mem _ later)
    unfold Totals at rest ⊢
    rw [List.flatMap_cons, rest, entries_result (returns r List.mem_cons_self)]
    cases address : r.address with
    | none => simp [address]
    | some p => simp [address]

theorem totals_free {replies made : List Reply} {freed : List Nat} {free : Reply} {p : Nat}
    (totals : Totals replies made freed) (frees : free.op = .freeValue p) :
    Totals (replies ++ [free]) made (freed ++ [p]) := by
  unfold Totals at totals ⊢
  rw [List.flatMap_append, totals, List.flatMap_singleton, entries_free frees]
  simp

theorem keeps_dropped {made : List Reply} (returns : ∀ r ∈ made, r.op.returnsResult = true) {a : Answer}
    (back : a.handleAddress = none) :
    KeepsTable table a.handleAddress (tableBy table made) ↔ ∀ r ∈ made, r.Covered table [] := by
  rw [keeps_iff (totals_results returns), back]
  simp [Reply.Covered]

theorem judged_nothing {x : Helper} (fine : ∀ table, x.Keeps table []) {a : Answer}
    (throws : ∃ e, a = .javaThrow e) : Judged x a [] := by
  intro table
  exact iff_of_true ((keeps_dropped (by simp) (address_thrown throws)).2 (by simp)) (fine table)

theorem keeps_read {value : Reply} (returns : value.op.returnsResult = true) {a : Answer}
    (back : (value.Passes ok ∧ a.handleAddress = value.address) ∨
      (¬ value.Passes ok ∧ a.handleAddress = none)) :
    KeepsTable table a.handleAddress (tableBy table [value]) ↔ value.PassedOn table ok := by
  rcases back with ⟨passes, back⟩ | ⟨drops, back⟩
  · rw [keeps_iff (totals_results (by simpa using returns)), back]
    refine iff_of_true ⟨by simp, ?_⟩ (Or.inl passes)
    intro r member p address
    cases List.mem_singleton.1 member
    exact Or.inr (Or.inl address)
  · rw [keeps_dropped (by simpa using returns) back]
    simp [Reply.PassedOn, drops]

theorem passedOn_plain {value : Reply}
    (plain : ∀ id cls p objPointer, ok (.handle id cls p objPointer) = false) :
    value.PassedOn table ok ↔ value.Covered table [] := by
  refine ⟨fun passed => ?_, Or.inr⟩
  rcases passed with ⟨-, o, result, fine⟩ | covered
  · intro p address
    rw [Reply.address, result] at address
    cases o with
    | handle id cls q objPointer => cases (plain id cls q objPointer).symm.trans fine
    | _ => cases address
  · exact covered

theorem judged_typedGetter {x : Helper} {jsObj : Option JavaObject} {name : Option JavaString}
    (fine : ∀ table, x.Keeps table [])
    (keeps : ∀ table value, x.Keeps table [value] ↔ value.PassedOn table ok) :
    Yields t quiet (Java.typedGetter ok jsObj name) (Judged x) := by
  refine yields_bind (yields_getProperty jsObj name) fun a early got => yields_ret ?_
  rw [List.append_nil]
  rcases got with ⟨rfl, e, rfl⟩ | ⟨value, returns, rfl, rfl⟩
  · exact judged_nothing fine ⟨e, rfl⟩
  · exact fun table => (keeps_read returns (address_onlyOf value)).trans (keeps table value).symm

theorem castTo_plain (plain : ∀ id cls p objPointer, ok (.handle id cls p objPointer) = false) (a : Answer) :
    (Java.castTo ok a).handleAddress = none := by
  cases a with
  | javaReturn o =>
    cases o with
    | none => rfl
    | some o =>
      cases fine : ok o with
      | false => simp only [Java.castTo, fine, Bool.false_eq_true, if_false, Answer.handleAddress]
      | true =>
        simp only [Java.castTo, fine, if_true]
        cases o with
        | handle id cls p objPointer => cases (plain id cls p objPointer).symm.trans fine
        | _ => rfl
  | _ => rfl

theorem castTo_fine {a : Answer} {o : JavaObject} (cast : Java.castTo ok a = .javaReturn (some o)) :
    ok o = true := by
  cases a with
  | javaReturn o' =>
    cases o' with
    | none => cases cast
    | some o' =>
      simp only [Java.castTo] at cast
      split at cast
      next fine =>
        cases cast
        exact fine
      next => cases cast
  | _ => cases cast

theorem isJSFunction_handle {o : JavaObject} (function : o.isJSFunction = true) :
    ∃ id p objPointer, o = .handle id .jsFunction p objPointer := by
  unfold JavaObject.isJSFunction at function
  split at function
  · exact ⟨_, _, _, rfl⟩
  · cases function

theorem call_none (args : List (Option JavaObject)) (fuel : Nat) :
    Yields t quiet (Java.call none args fuel) fun a replies => replies = [] ∧ ∃ e, a = .javaThrow e :=
  yields_noHandle fun _ _ _ _ same => nomatch same

theorem judged_toString (jsObj : Option JavaObject) (fuel : Nat) :
    Yields t quiet (Java.toString jsObj fuel) (Judged (.toString jsObj fuel)) := by
  refine yields_bind (yields_getJSFunction jsObj _) fun a early got => ?_
  rcases got with ⟨rfl, e, rfl⟩ | ⟨function, returns, rfl, ⟨-, id, pointer, objPointer, -, rfl⟩ |
    ⟨-, rfl | ⟨e, rfl⟩⟩⟩
  · exact yields_ret (judged_nothing (x := .toString jsObj fuel) (fun _ => trivial) ⟨e, rfl⟩)
  · refine yields_bind (yields_call id _ pointer objPointer [] fuel) fun b late called => yields_ret ?_
    obtain ⟨text, returns', rfl, rfl⟩ := called
    intro table
    refine (keeps_dropped (by simp [returns, returns']) (castTo_plain (fun _ _ _ _ => rfl) _)).trans ?_
    simp [Helper.Keeps]
  · refine yields_bind (call_none [] fuel) fun b late called => yields_ret ?_
    obtain ⟨rfl, e, rfl⟩ := called
    intro table
    refine (keeps_dropped (by simp [returns]) rfl).trans ?_
    simp [Helper.Keeps]
  · refine yields_ret fun table => (keeps_dropped (by simp [returns]) rfl).trans ?_
    simp [Helper.Keeps]

theorem judged_getNames (jsObj : Option JavaObject) (fuel : Nat) :
    Yields t quiet (Java.getNames jsObj fuel) (Judged (.getNames jsObj fuel)) := by
  have nothing : ∀ e, Judged (.getNames jsObj fuel) (.javaThrow e) [] :=
    fun e => judged_nothing (x := .getNames jsObj fuel) (fun _ => trivial) ⟨e, rfl⟩
  have alone : ∀ {a : Answer} {function : Reply}, function.op.returnsResult = true → a.handleAddress = none →
      Judged (.getNames jsObj fuel) a [function] := by
    intro a function returns back table
    refine (keeps_dropped (by simp [returns]) back).trans ?_
    simp [Helper.Keeps]
  have both : ∀ {function names : Reply}, function.op.returnsResult = true → names.op.returnsResult = true →
      Judged (.getNames jsObj fuel) (Java.castTo JavaObject.isJSArray names.seen) [function, names] := by
    intro function names returns returns' table
    have made : ∀ r ∈ [function, names], r.op.returnsResult = true := by simp [returns, returns']
    rcases address_castTo JavaObject.isJSArray names with ⟨passes, back⟩ | ⟨drops, back⟩
    · rw [keeps_iff (totals_results made), back]
      constructor
      · rintro ⟨-, all⟩
        refine Or.inl ⟨passes, fun p address => ?_⟩
        rcases all function List.mem_cons_self p address with impossible | there | known
        · cases impossible
        · exact Or.inr ⟨names, List.mem_singleton_self _, there⟩
        · exact Or.inl known
      · intro fine
        have covered : function.Covered table [names] :=
          fine.elim And.right fun dropped => Reply.covered_mono dropped.1 (List.nil_subset _)
        refine ⟨by simp, fun r member p address => ?_⟩
        rcases List.mem_cons.1 member with rfl | last
        · rcases covered p address with known | ⟨o, here, there⟩
          · exact Or.inr (Or.inr known)
          · cases List.mem_singleton.1 here
            exact Or.inr (Or.inl there)
        · cases List.mem_singleton.1 last
          exact Or.inr (Or.inl address)
    · refine (keeps_dropped made back).trans ?_
      simp [Helper.Keeps, drops]
  unfold Java.getNames
  generalize Judged (.getNames jsObj fuel) = judged at nothing alone both ⊢
  unfold Java.onHandle
  split
  · refine yields_bind (yields_native _) fun a early got => ?_
    obtain ⟨function, ⟨op, -⟩, rfl, rfl⟩ := got
    have returns : function.op.returnsResult = true := congrArg _ op
    split
    next getOwnPropertyNames cast =>
      cases getOwnPropertyNames with
      | none =>
        refine yields_bind (call_none [_] fuel) fun b late called => yields_ret ?_
        obtain ⟨rfl, e, rfl⟩ := called
        exact alone returns rfl
      | some o =>
        obtain ⟨id', p, objPointer', rfl⟩ := isJSFunction_handle (castTo_fine cast)
        refine yields_bind (yields_call id' _ p objPointer' [_] fuel) fun b late called => yields_ret ?_
        obtain ⟨names, returns', rfl, rfl⟩ := called
        exact both returns returns'
    next a other =>
      refine yields_ret (alone returns ?_)
      cases cast : Java.castTo JavaObject.isJSFunction function.seen with
      | javaReturn o => exact absurd cast (other o)
      | _ => rfl
  · exact yields_ret (nothing _)
  · exact yields_ret (nothing _)

def Silent (a : Answer) (replies : List Reply) : Prop :=
  (∀ r ∈ replies, r.entries = []) ∧ a.handleAddress = none

theorem silent_setProperty (jsObj : Option JavaObject) (name : Option JavaString)
    (value : Option JavaObject) : Yields t quiet (Java.setProperty jsObj name value) Silent := by
  refine yields_putIfCallFunction ?_
  unfold Java.onHandle
  split
  next id cls pointer objPointer =>
    refine yields_mono (yields_native _) ?_
    rintro a replies ⟨r, ⟨op, w, h, u, run⟩, rfl, rfl⟩
    have nothing : r.result.handleAddress = none := by
      cases name with
      | none =>
        obtain ⟨b, s, rest, -, tail, -⟩ := exec_prim run
        obtain ⟨-, same, -⟩ := exec_ret tail
        rw [Outcome.returned.inj same]
        rfl
      | some name =>
        rcases exec_bind run with ⟨_, s, before, after, -, last, -⟩ | ⟨-, dead⟩
        · obtain ⟨-, same, -⟩ := exec_ret last
          rw [Outcome.returned.inj same]
          rfl
        · cases dead
    refine ⟨?_, ?_⟩
    · intro r' member
      cases List.mem_singleton.1 member
      refine entries_other (by rw [op]; rfl) fun p frees => ?_
      cases op.symm.trans frees
    · by_cases throws : r.Throws
      · exact address_thrown throws
      · exact (address_seen throws).trans nothing
  · exact yields_ret ⟨by simp, rfl⟩
  · exact yields_ret ⟨by simp, rfl⟩

theorem silent_andThen {first second : JavaProgram} (one : Yields t quiet first Silent)
    (two : Yields t quiet second Silent) : Yields t quiet (Java.andThen first second) Silent := by
  refine yields_bind one fun a early begun => ?_
  split
  · refine yields_ret ⟨?_, rfl⟩
    rw [List.append_nil]
    exact begun.1
  · refine yields_mono two fun b late ended => ⟨fun r member => ?_, ended.2⟩
    exact (List.mem_append.1 member).elim (begun.1 r) (ended.1 r)

theorem silent_setMethods (created : Option JavaObject) (methods : List (JavaString × JSCallFunction))
    {last : JavaProgram} (silent : Yields t quiet last Silent) :
    Yields t quiet (Java.setMethods created methods last) Silent := by
  induction methods with
  | nil => exact silent
  | cons method methods ih =>
    refine silent_andThen ?_ ih
    unfold Java.onHandle
    split
    · exact silent_setProperty _ _ _
    · exact yields_ret ⟨by simp, rfl⟩
    · exact yields_ret ⟨by simp, rfl⟩

theorem totals_silent {first others made : List Reply} {freed : List Nat} (totals : Totals first made freed)
    (silent : ∀ r ∈ others, r.entries = []) : Totals (first ++ others) made freed := by
  have none : others.flatMap Reply.entries = [] := List.flatMap_eq_nil_iff.2 silent
  unfold Totals at totals ⊢
  rw [List.flatMap_append, totals, none, List.append_nil]

theorem judged_setPropertyOfClass (jsObj : Option JavaObject) (name : Option JavaString)
    (methods : List (JavaString × JSCallFunction)) :
    Yields t quiet (Java.setPropertyOfClass jsObj name methods)
      (Judged (.setPropertyOfClass jsObj name methods)) := by
  have nothing : ∀ e, Judged (.setPropertyOfClass jsObj name methods) (.javaThrow e) [] :=
    fun e => judged_nothing (x := .setPropertyOfClass jsObj name methods) (fun _ => trivial) ⟨e, rfl⟩
  have first : ∀ {created : Reply} {a : Answer} {others : List Reply}, created.op.returnsResult = true →
      Silent a others → Judged (.setPropertyOfClass jsObj name methods) a ([created] ++ others) := by
    intro created a others returns silent table
    have made : Totals [created] [created] [] := totals_results (by simp [returns])
    rw [keeps_iff (totals_silent made silent.1), silent.2]
    simp [Helper.Keeps, Reply.Covered]
  unfold Java.setPropertyOfClass
  generalize Judged (.setPropertyOfClass jsObj name methods) = judged at nothing first ⊢
  unfold Java.onHandle
  split
  · refine yields_bind (yields_native _) fun a early got => ?_
    obtain ⟨created, ⟨op, -⟩, rfl, rfl⟩ := got
    have returns : created.op.returnsResult = true := congrArg _ op
    split
    next object cast =>
      refine yields_mono (silent_setMethods object methods (silent_setProperty _ name object)) ?_
      exact fun b others silent => first returns silent
    next a other =>
      refine yields_ret (first returns ⟨by simp, ?_⟩)
      cases cast : Java.castTo JavaObject.isJSObject created.seen with
      | javaReturn o => exact absurd cast (other o)
      | _ => rfl
  · exact yields_ret (nothing _)
  · exact yields_ret (nothing _)

theorem yields_finallyDo {body last : JavaProgram} {B L : Answer → List Reply → Prop}
    (first : Yields t quiet body B) (second : Yields t quiet last L) :
    Yields t quiet (Java.finallyDo body last) fun a replies => ∃ outcome early b late,
      B outcome early ∧ L b late ∧ replies = early ++ late ∧
      (((∃ e, b = .javaThrow e) ∧ ∃ e, a = .javaThrow e) ∨ ((¬ ∃ e, b = .javaThrow e) ∧ a = outcome)) := by
  refine yields_bind first fun outcome early begun => yields_bind second fun b late ended => ?_
  rw [← List.append_nil late] at ended
  split
  · exact yields_ret ⟨outcome, early, _, _, begun, ended, rfl, Or.inl ⟨⟨_, rfl⟩, _, rfl⟩⟩
  next other =>
    refine yields_ret ⟨outcome, early, _, _, begun, ended, rfl, Or.inr ⟨?_, rfl⟩⟩
    rintro ⟨e, rfl⟩
    exact other e rfl

theorem freeValue_none : Yields t quiet (Java.freeValue none) fun a replies =>
    replies = [] ∧ ∃ e, a = .javaThrow e :=
  yields_noHandle fun _ _ _ _ same => nomatch same

theorem finally_back {a : Answer} {result free : Reply}
    (back : (free.Throws ∧ ∃ e, a = .javaThrow e) ∨ (¬ free.Throws ∧ a = result.seen)) :
    (¬ (¬ result.Throws ∧ ¬ free.Throws) ∧ a.handleAddress = none) ∨
      ((¬ result.Throws ∧ ¬ free.Throws) ∧ a.handleAddress = result.address) := by
  rcases back with ⟨throws, thrown⟩ | ⟨quiet, rfl⟩
  · exact Or.inl ⟨fun none => none.2 throws, address_thrown thrown⟩
  · by_cases throws : result.Throws
    · exact Or.inl ⟨fun none => none.1 throws, address_thrown throws⟩
    · exact Or.inr ⟨⟨throws, quiet⟩, address_seen throws⟩

theorem keeps_freeing {replies made frees : List Reply} {returned : Option Nat}
    (totals : Totals replies made (frees.filterMap Reply.address)) :
    KeepsTable table returned (tableBy table replies) ↔ (∀ o ∈ frees, o.Unregistered table) ∧
      ∀ r ∈ made, ∀ p, r.address = some p →
        (table p = true ∨ ∃ o ∈ frees, o.address = some p) ∨ returned = some p := by
  rw [keeps_iff totals]
  have unregistered : (∀ p ∈ frees.filterMap Reply.address, table p = false) ↔
      ∀ o ∈ frees, o.Unregistered table := by
    simp only [List.mem_filterMap, Reply.Unregistered]
    exact ⟨fun all o here p address => all p ⟨o, here, address⟩, fun all p ⟨o, here, address⟩ => all o here
      p address⟩
  rw [unregistered]
  refine and_congr_right fun _ => forall₂_congr fun r _ => forall₂_congr fun p _ => ?_
  rw [List.mem_filterMap]
  generalize (∃ o ∈ frees, o.address = some p) = freed
  tauto

theorem covered_self {r : Reply} {others : List Reply} (here : r ∈ others) : r.Covered table others :=
  fun _ address => Or.inr ⟨r, here, address⟩

theorem keeps_result {replies frees : List Reply} {made : List Reply} {result : Reply} {a : Answer}
    (totals : Totals replies (made ++ [result]) (frees.filterMap Reply.address))
    (freed : ∀ r ∈ made, r ∈ frees) {Q : Prop}
    (back : (¬ Q ∧ a.handleAddress = none) ∨ (Q ∧ a.handleAddress = result.address)) :
    KeepsTable table a.handleAddress (tableBy table replies) ↔ (∀ o ∈ frees, o.Unregistered table) ∧
      (Q ∨ result.Covered table frees) := by
  rw [keeps_freeing totals]
  refine and_congr_right fun _ => ?_
  rcases back with ⟨throws, back⟩ | ⟨returns, back⟩
  · rw [back]
    constructor
    · intro all
      refine Or.inr fun p address => ?_
      rcases all result (List.mem_append_right _ (List.mem_singleton_self _)) p address with fine | impossible
      · exact fine
      · cases impossible
    · rintro (impossible | covered) r member p address
      · exact absurd impossible throws
      · rcases List.mem_append.1 member with early | last
        · exact Or.inl (covered_self (freed r early) p address)
        · cases List.mem_singleton.1 last
          exact Or.inl (covered p address)
  · rw [back]
    refine iff_of_true (fun r member p address => ?_) (Or.inl returns)
    rcases List.mem_append.1 member with early | last
    · exact Or.inl (covered_self (freed r early) p address)
    · cases List.mem_singleton.1 last
      exact Or.inr address

theorem judged_invokeMethod (thiz : Option JavaObject) (name : Option JavaString)
    (args : List (Option JavaObject)) (fuel : Nat) :
    Yields t quiet (Java.invokeMethod thiz name args fuel) (Judged (.invokeMethod thiz name args fuel)) := by
  have alone : ∀ {a : Answer} {value : Reply}, value.op.returnsResult = true → (∃ e, a = .javaThrow e) →
      Judged (.invokeMethod thiz name args fuel) a [value] := by
    intro a value returns throws table
    refine (keeps_dropped (by simp [returns]) (address_thrown throws)).trans ?_
    simp [Helper.Keeps]
  refine yields_bind (yields_getJSFunction thiz name) fun a early got => ?_
  rcases got with ⟨rfl, e, rfl⟩ | ⟨function, returns, rfl, ⟨-, id, p, objPointer, address, rfl⟩ |
    ⟨-, rfl | ⟨e, rfl⟩⟩⟩
  · exact yields_ret (judged_nothing (x := .invokeMethod thiz name args fuel) (fun _ => trivial) ⟨e, rfl⟩)
  · refine yields_mono (yields_finallyDo (yields_call id _ p objPointer args fuel)
      (yields_freeValue id _ p objPointer)) ?_
    rintro a later ⟨_, _, _, _, ⟨result, returns', rfl, rfl⟩, ⟨free, frees, rfl, rfl⟩, rfl, back⟩ table
    have made : ∀ r ∈ [function, result], r.op.returnsResult = true := by simp [returns, returns']
    have totals : Totals [function, result, free] ([function] ++ [result])
      ([function].filterMap Reply.address) := by
      have all := totals_free (totals_results made) frees
      simpa [address] using all
    refine (keeps_result totals (by simp) (finally_back back)).trans ?_
    simp [Helper.Keeps]
  · refine yields_mono (yields_finallyDo (call_none args fuel) freeValue_none) ?_
    rintro a later ⟨_, _, _, _, ⟨rfl, -⟩, ⟨rfl, throws⟩, rfl, ⟨-, thrown⟩ | ⟨quietly, -⟩⟩
    · exact alone returns thrown
    · exact absurd throws quietly
  · exact yields_ret (alone returns ⟨e, rfl⟩)

theorem totals_cons {replies made : List Reply} {freed : List Nat} {r : Reply} (other : r.entries = [])
    (totals : Totals replies made freed) : Totals (r :: replies) made freed := by
  unfold Totals at totals ⊢
  rw [List.flatMap_cons, other, totals, List.nil_append]

theorem keeps_lost {replies made frees : List Reply} {a : Answer}
    (totals : Totals replies made (frees.filterMap Reply.address)) (throws : ∃ e, a = .javaThrow e) :
    KeepsTable table a.handleAddress (tableBy table replies) ↔ (∀ o ∈ frees, o.Unregistered table) ∧
      ∀ r ∈ made, r.Covered table frees := by
  rw [keeps_freeing totals, address_thrown throws]
  simp [Reply.Covered]

theorem yields_freeThen (id : Nat) (cls : HandleClass) (pointer objPointer : Nat) {second : JavaProgram}
    {L : Answer → List Reply → Prop} (yields : Yields t quiet second L) :
    Yields t quiet (Java.andThen (Java.freeValue (some (.handle id cls pointer objPointer))) second)
      fun a replies => ∃ free : Reply, free.op = .freeValue pointer ∧
        ((replies = [free] ∧ ∃ e, a = .javaThrow e) ∨ ∃ later, replies = free :: later ∧ L a later) := by
  refine yields_bind (yields_freeValue id cls pointer objPointer) fun a early freed => ?_
  obtain ⟨free, frees, rfl, rfl⟩ := freed
  split
  · exact yields_ret ⟨free, frees, Or.inl ⟨rfl, _, rfl⟩⟩
  · exact yields_mono yields fun b later held => ⟨free, frees, Or.inr ⟨later, rfl, held⟩⟩

theorem judged_onGlobal {globalObject : Reply} (unlisted : globalObject.entries = []) {p : Nat}
    (here : globalObject.address = some p) (id : Nat) (cls : HandleClass) (objPointer : Nat)
    (name : Option JavaString) (args : List (Option JavaObject)) (fuel : Nat) :
    Yields t quiet ((Java.getJSFunction (some (.handle id cls p objPointer)) name).bind fun a =>
      match a with
      | .javaReturn jsfnc => Java.finallyDo (Java.call jsfnc args fuel)
          (Java.andThen (Java.freeValue (some (.handle id cls p objPointer))) (Java.freeValue jsfnc))
      | a => .ret a) fun a later => Judged (.invokeFunction name args fuel) a (globalObject :: later) := by
  refine yields_bind (yields_getJSFunction _ name) fun b early got => ?_
  rcases got with ⟨rfl, e, rfl⟩ |
    ⟨function, returns, rfl, ⟨-, id', p', objPointer', here', rfl⟩ | ⟨-, rfl | ⟨e, rfl⟩⟩⟩
  · have totals : Totals [globalObject] [] (([] : List Reply).filterMap Reply.address) := totals_cons
      unlisted rfl
    refine yields_ret fun table => (keeps_lost totals ⟨e, rfl⟩).trans ?_
    simp [Helper.Keeps]
  · refine yields_mono (yields_finallyDo (yields_call id' _ p' objPointer' args fuel)
      (yields_freeThen id cls p objPointer (yields_freeValue id' _ p' objPointer'))) ?_
    rintro a later ⟨_, _, _, _, ⟨result, returns', rfl, rfl⟩, ⟨free, frees, held⟩, rfl, back⟩ table
    have made : Totals [function, result] ([function] ++ [result]) [] :=
      totals_results (by simp [returns, returns'])
    rcases held with ⟨rfl, throws⟩ | ⟨_, rfl, last, frees', rfl, rfl⟩
    · rcases back with ⟨-, thrown⟩ | ⟨quietly, -⟩
      · have totals : Totals [globalObject, function, result, free] [function, result]
            ([globalObject].filterMap Reply.address) := by
          simpa [here] using totals_cons unlisted (totals_free made frees)
        refine (keeps_lost totals thrown).trans ?_
        simp [Helper.Keeps]
      · exact absurd throws quietly
    · have totals : Totals [globalObject, function, result, free, last] ([function] ++ [result])
          ([globalObject, function].filterMap Reply.address) := by
        simpa [here, here'] using totals_cons unlisted (totals_free (totals_free made frees) frees')
      refine (keeps_result totals (by simp) (finally_back back)).trans ?_
      simp [Helper.Keeps, and_assoc]
  · refine yields_mono (yields_finallyDo (call_none args fuel)
      (yields_freeThen id cls p objPointer freeValue_none)) ?_
    rintro a later ⟨_, _, _, _, ⟨rfl, -⟩, ⟨free, frees, held⟩, rfl, back⟩ table
    obtain ⟨rfl, throws⟩ : _ = [free] ∧ ∃ e, _ = Answer.javaThrow e := by
      rcases held with only | ⟨_, rfl, rfl, throws⟩
      · exact only
      · exact ⟨rfl, throws⟩
    rcases back with ⟨-, thrown⟩ | ⟨quietly, -⟩
    · have made : Totals [function] [function] [] := totals_results (by simp [returns])
      have totals : Totals [globalObject, function, free] [function]
          ([globalObject].filterMap Reply.address) := by
        simpa [here] using totals_cons unlisted (totals_free made frees)
      refine (keeps_lost totals thrown).trans ?_
      simp [Helper.Keeps]
    · exact absurd throws quietly
  · have made : Totals [function] [function] (([] : List Reply).filterMap Reply.address) :=
      totals_results (by simp [returns])
    refine yields_ret fun table => (keeps_lost (totals_cons unlisted made) ⟨e, rfl⟩).trans ?_
    simp [Helper.Keeps]

theorem judged_invokeFunction (name : Option JavaString) (args : List (Option JavaObject)) (fuel : Nat) :
    Yields t quiet (Java.invokeFunction name args fuel) (Judged (.invokeFunction name args fuel)) := by
  refine yields_bind (yields_native _) fun a early got => ?_
  obtain ⟨globalObject, ⟨op, -⟩, rfl, rfl⟩ := got
  have unlisted : globalObject.entries = [] := by
    refine entries_other (by rw [op]; rfl) fun p frees => ?_
    cases op.symm.trans frees
  have first : ∀ {a : Answer}, a.handleAddress = none →
      Judged (.invokeFunction name args fuel) a [globalObject] := by
    intro a back table
    have totals : Totals [globalObject] [] [] := totals_cons unlisted rfl
    rw [keeps_iff totals]
    simp [Helper.Keeps]
  have noHandle : ∀ {jsobj : Option JavaObject},
      (∀ id cls pointer objPointer, jsobj ≠ some (.handle id cls pointer objPointer)) →
      Yields t quiet ((Java.getJSFunction jsobj name).bind fun a =>
        match a with
        | .javaReturn jsfnc =>
          Java.finallyDo (Java.call jsfnc args fuel) (Java.andThen (Java.freeValue jsobj)
            (Java.freeValue jsfnc))
        | a => .ret a) fun a later => Judged (.invokeFunction name args fuel) a ([globalObject] ++ later) := by
    intro jsobj none
    refine yields_bind (yields_noHandle none) fun b early got => ?_
    obtain ⟨rfl, e, rfl⟩ := got
    exact yields_ret (first rfl)
  split
  next jsobj seen =>
    cases jsobj with
    | none => exact noHandle fun _ _ _ _ same => nomatch same
    | some o =>
      cases o with
      | handle id cls p objPointer =>
        have here : globalObject.address = some p := by
          refine (address_seen ?_).symm.trans (by rw [seen]; rfl)
          rintro ⟨e, throws⟩
          cases seen.symm.trans throws
        exact judged_onGlobal unlisted here id cls objPointer name args fuel
      | _ => exact noHandle fun _ _ _ _ same => nomatch same
  next a other =>
    refine yields_ret (first ?_)
    cases seen : globalObject.seen with
    | javaReturn o => exact absurd seen (other o)
    | _ => rfl

theorem judged_plainGetter {x : Helper} {jsObj : Option JavaObject} {name : Option JavaString}
    (plain : ∀ id cls p objPointer, ok (.handle id cls p objPointer) = false)
    (fine : ∀ table, x.Keeps table [])
    (keeps : ∀ table value, x.Keeps table [value] ↔ value.Covered table []) :
    Yields t quiet (Java.typedGetter ok jsObj name) (Judged x) :=
  judged_typedGetter fine fun table value => (keeps table value).trans (passedOn_plain plain).symm

theorem judged_getJSFunction (jsObj : Option JavaObject) (name : Option JavaString) :
    Yields t quiet (Java.getJSFunction jsObj name) (Judged (.getJSFunction jsObj name)) := by
  refine yields_mono (yields_getJSFunction jsObj name) fun a replies got => ?_
  rcases got with ⟨rfl, throws⟩ | ⟨value, returns, rfl, ⟨passes, id, p, objPointer, here, rfl⟩ |
    ⟨drops, nothing⟩⟩
  · exact judged_nothing (x := .getJSFunction jsObj name) (fun _ => trivial) throws
  · exact fun table => keeps_read returns (Or.inl ⟨passes, here.symm⟩)
  · refine fun table => keeps_read returns (Or.inr ⟨drops, ?_⟩)
    rcases nothing with rfl | ⟨e, rfl⟩ <;> rfl

theorem judged_helper (x : Helper) : Yields t quiet x.program (Judged x) := by
  cases x with
  | getString _ _ => exact judged_plainGetter (fun _ _ _ _ => rfl) (fun _ => trivial) fun _ _ => Iff.rfl
  | getInteger _ _ => exact judged_plainGetter (fun _ _ _ _ => rfl) (fun _ => trivial) fun _ _ => Iff.rfl
  | getBoolean _ _ => exact judged_plainGetter (fun _ _ _ _ => rfl) (fun _ => trivial) fun _ _ => Iff.rfl
  | getDouble _ _ => exact judged_plainGetter (fun _ _ _ _ => rfl) (fun _ => trivial) fun _ _ => Iff.rfl
  | getLong _ _ => exact judged_plainGetter (fun _ _ _ _ => rfl) (fun _ => trivial) fun _ _ => Iff.rfl
  | getJSObject _ _ => exact judged_typedGetter (fun _ => trivial) fun _ _ => Iff.rfl
  | getJSFunction jsObj name => exact judged_getJSFunction jsObj name
  | getJSArray _ _ => exact judged_typedGetter (fun _ => trivial) fun _ _ => Iff.rfl
  | toString jsObj fuel => exact judged_toString jsObj fuel
  | getNames jsObj fuel => exact judged_getNames jsObj fuel
  | setPropertyOfClass jsObj name methods => exact judged_setPropertyOfClass jsObj name methods
  | invokeMethod thiz name args fuel => exact judged_invokeMethod thiz name args fuel
  | invokeFunction name args fuel => exact judged_invokeFunction name args fuel

end Judgements

section Quiet
variable {t : ThreadId}

abbrev OnWrapper (p : JavaProgram) : Prop := p.Within (fun _ => True) fun op => op.isConstructor = false

theorem onWrapper_native {op : NativeOp} (made : op.isConstructor = false) : OnWrapper (Java.native op) :=
  ⟨made, fun _ => trivial⟩

theorem onWrapper_onHandle {o : Option JavaObject} {p : Nat → Nat → Nat → JavaProgram}
    (within : ∀ id pointer objPointer, OnWrapper (p id pointer objPointer)) : OnWrapper
      (Java.onHandle o p) := by
  unfold Java.onHandle
  split
  · exact within _ _ _
  · trivial
  · trivial

theorem onWrapper_putIfCallFunction {value : Option JavaObject} {p : JavaProgram} (within : OnWrapper p) :
    OnWrapper (Java.putIfCallFunction value p) := by
  unfold Java.putIfCallFunction
  split
  · exact ⟨trivial, fun _ => within⟩
  · exact within

theorem onWrapper_call (func : Option JavaObject) (args : List (Option JavaObject)) (fuel : Nat) :
    OnWrapper (Java.call func args fuel) := by
  have puts : ∀ {p : JavaProgram}, OnWrapper p → OnWrapper (Java.putCallFunctions args p) := by
    intro p within
    induction args with
    | nil => exact within
    | cons arg args ih => exact onWrapper_putIfCallFunction ih
  exact onWrapper_onHandle fun _ _ _ => puts (onWrapper_native rfl)

theorem onWrapper_getJSFunction (jsObj : Option JavaObject) (name : Option JavaString) :
    OnWrapper (Java.getJSFunction jsObj name) := by
  refine onWrapper_onHandle fun id pointer objPointer => ⟨rfl, fun a => ?_⟩
  dsimp only
  split <;> trivial

theorem onWrapper_freeValue (jsObj : Option JavaObject) : OnWrapper (Java.freeValue jsObj) :=
  onWrapper_onHandle fun _ _ _ => ⟨trivial, fun _ => onWrapper_native rfl⟩

theorem onWrapper_setProperty (jsObj : Option JavaObject) (name : Option JavaString)
    (value : Option JavaObject) : OnWrapper (Java.setProperty jsObj name value) :=
  onWrapper_putIfCallFunction (onWrapper_onHandle fun _ _ _ => onWrapper_native rfl)

theorem onWrapper_andThen {first second : JavaProgram} (one : OnWrapper first) (two : OnWrapper second) :
    OnWrapper (Java.andThen first second) := by
  refine Prog.within_bind one fun a => ?_
  split
  · trivial
  · exact two

theorem onWrapper_finallyDo {body last : JavaProgram} (first : OnWrapper body) (second : OnWrapper last) :
    OnWrapper (Java.finallyDo body last) := by
  refine Prog.within_bind first fun outcome => Prog.within_bind second fun a => ?_
  split <;> trivial

theorem onWrapper_typedGetter (ok : JavaObject → Bool) (jsObj : Option JavaObject)
    (name : Option JavaString) : OnWrapper (Java.typedGetter ok jsObj name) :=
  Prog.within_bind (onWrapper_onHandle fun _ _ _ => onWrapper_native rfl) fun _ => trivial

theorem onWrapper_helper (x : Helper) : OnWrapper x.program := by
  cases x with
  | getJSFunction jsObj name => exact onWrapper_getJSFunction jsObj name
  | toString jsObj fuel =>
    refine Prog.within_bind (onWrapper_getJSFunction jsObj _) fun a => ?_
    split
    · exact Prog.within_bind (onWrapper_call _ [] fuel) fun _ => trivial
    · trivial
  | getNames jsObj fuel =>
    refine onWrapper_onHandle fun _ _ _ => Prog.within_bind (onWrapper_native rfl) fun a => ?_
    split
    · exact Prog.within_bind (onWrapper_call _ _ fuel) fun _ => trivial
    · trivial
  | setPropertyOfClass jsObj name methods =>
    refine onWrapper_onHandle fun _ _ _ => Prog.within_bind (onWrapper_native rfl) fun a => ?_
    split
    · induction methods with
      | nil => exact onWrapper_setProperty _ _ _
      | cons method methods ih =>
        exact onWrapper_andThen (onWrapper_onHandle fun _ _ _ => onWrapper_setProperty _ _ _) ih
    · trivial
  | invokeMethod thiz name args fuel =>
    refine Prog.within_bind (onWrapper_getJSFunction thiz name) fun a => ?_
    split
    · exact onWrapper_finallyDo (onWrapper_call _ args fuel) (onWrapper_freeValue _)
    · trivial
  | invokeFunction name args fuel =>
    refine Prog.within_bind (onWrapper_native rfl) fun a => ?_
    split
    · refine Prog.within_bind (onWrapper_getJSFunction _ name) fun a => ?_
      split
      · refine onWrapper_finallyDo (onWrapper_call _ args fuel) ?_
        exact onWrapper_andThen (onWrapper_freeValue _) (onWrapper_freeValue _)
      · trivial
    · trivial
  | _ => exact onWrapper_typedGetter _ _ _

theorem values_javaExec (c : JavaPrim) (w : World) : (javaExec c w).2.values = w.values := by
  cases c <;> rfl

theorem leads_quiet {p : JavaProgram} (onWrapper : OnWrapper p) (table : Nat → Bool) :
    Leads (javaMeaning t true) (fun _ s => s.world.values = tableBy table s.replies) p
      fun _ _ s => s.world.values = tableBy table s.replies := by
  apply leads_within onWrapper
  · intro c h s a s' _ same acts
    cases acts
    exact (values_javaExec c s.world).trans same
  · rintro op h s a s' made same ⟨w, h', b, u, -, run, quiet, -, rfl⟩
    obtain ⟨alone, undisturbed⟩ := quiet rfl
    have effect : u.values = tableAfter w.values (op.entries b) := effect_program made t w h' b u run
      undisturbed
    rw [alone, same] at effect
    simp only [tableBy, List.flatMap_append, tableAfter, List.foldl_append]
    rw [effect]
    simp [tableBy, tableAfter, Reply.entries]

end Quiet

section Runs

/-- A call of a helper, from a reachable state, that has come to its end. -/
structure HelperRun where
  globalObj : Addr
  jvm : List UInt8 → JavaString
  labels : List BridgeLabel
  start : BridgeConfig
  ran : bridge.run labels (initial globalObj jvm) = some start
  thread : ThreadId
  quiet : Bool
  helper : Helper
  history : History Track JavaPrim NativeOp Answer
  answer : Answer
  stop : Track
  run : Exec (javaMeaning thread quiet) helper.program ⟨start.state, []⟩ history (.returned answer) stop

namespace HelperRun
variable (r : HelperRun)

def before : Nat → Bool := r.start.state.values

/-- What the native calls of the helper came to. -/
def replies : List Reply := r.stop.replies

/-- The table as the helper leaves it, when nobody else changes it. -/
def table : Nat → Bool := tableBy r.before r.replies

/-- The address of the handle the helper returns. -/
def returned : Option Nat := r.answer.handleAddress

end HelperRun

/-- Whatever the helper, the property read and the table before: the helper keeps the table exactly
    if its native calls come to what it needs. In a quiet run that is the table of the wrapper. -/
theorem helper_keeps_iff (r : HelperRun) :
    (KeepsTable r.before r.returned r.table ↔ r.helper.Keeps r.before r.replies) ∧
      (r.quiet = true → r.stop.world.values = r.table) := by
  obtain ⟨globalObj, jvm, labels, start, ran, t, quiet, x, h, a, stop, run⟩ := r
  constructor
  · obtain ⟨replies, same, judged⟩ := judged_helper x _ h a stop run
    rw [List.nil_append] at same
    dsimp only [HelperRun.table, HelperRun.replies, HelperRun.before, HelperRun.returned]
    rw [same]
    exact judged _
  · rintro rfl
    exact leads_exec (Q := fun _ _ s => s.world.values = tableBy start.state.values s.replies)
      (leads_quiet (onWrapper_helper x) _) rfl run

/-- The property is an object: getString drops the handle, and its entry stays for good. -/
theorem dropped_handle_stays :
    ¬ ∀ r : HelperRun, r.quiet = true → KeepsTable r.before r.returned r.stop.world.values := by
  intro keeps
  have ran : ∃ c, bridge.run (constructing ++ [.event (.spawn 0 .getGlobalObject), .call (.native 0),
      .tau, .tau, .tau, .answer .unit, .tau, .event (.retire 0)]) (initial 1 fun _ => []) = some c ∧
      c.state.values 10 = false ∧
      Can bridge.meaning ((NativeOp.getProperty 1 (some [])).program 0) [] c.state
        fun b h u => Undisturbed c.state h ∧ u.values 10 = true ∧ u.javaException = none ∧
          ∃ o, b = .javaReturn o ∧ o.filter JavaObject.isString = none := by
    refine ⟨_, rfl, rfl, ?_⟩
    refine can_prim rfl ?_
    refine can_enter (a := .value (.object 10))
      ⟨_, _, [.event (.engine (.alloc 10 (some .plain)))], rfl, rfl, rfl⟩ ?_
    refine can_prim rfl ?_
    refine can_enter (a := .int 0) ⟨_, _, [], rfl, rfl, rfl⟩ ?_
    refine can_prim rfl (can_prim rfl (can_prim rfl ?_))
    exact can_ret ⟨⟨rfl, rfl, trivial⟩, rfl, rfl, _, rfl, rfl⟩
  obtain ⟨c, ran, absent, b, h, u, native, quiet, present, clear, o, rfl, dropped⟩ := ran
  have reply : NativeReply 0 true (.getProperty 1 (some [])) ⟨c.state, []⟩ (.javaReturn o)
      ⟨{ u with javaException := none }, [] ++ [⟨.getProperty 1 (some []), .javaReturn o, u.javaException⟩]⟩ :=
    ⟨c.state, h, .javaReturn o, u, ⟨[], [], [], rfl⟩, native, fun _ => ⟨rfl, quiet⟩,
      by rw [seen, clear], rfl⟩
  have call : Exec (javaMeaning 0 true)
      (Helper.getString (some (.handle 0 .jsObject 1 0)) (some [])).program ⟨c.state, []⟩ _
      (.returned (.javaReturn (o.filter JavaObject.isString))) _ := .enter reply (.ret _ _)
  have kept := keeps ⟨1, _, _, c, ran, 0, true, _, _, _, _, call⟩ rfl 10
  rcases kept.2 present with before | returned
  · cases absent.symm.trans before
  · replace returned : (Answer.javaReturn (o.filter JavaObject.isString)).handleAddress = some 10 := returned
    rw [dropped] at returned
    cases returned

end Runs
end QuickJSBridge
