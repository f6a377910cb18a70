import QuickJSBridge.PropertyRoundTrips

/- Arrays as lists. The length of an array is a number of 32 bits without a sign, which the engine
   keeps as an int below 2^31 and as a double from there on; length reads an int. -/
namespace QuickJSBridge
open HostProgram ReentrantMachine ScriptObjects

section Numbers

theorem getInt_newUint32 {n : Nat} : (newUint32 n).getInt.toInt = n ↔ n < 2 ^ 31 := by
  unfold newUint32
  split
  next small =>
    have kept : (JSValue.int (Int32.ofNat n)).getInt = .ofNat n := by
      have bits : (Int32.ofNat n).toUInt32.toNat = n := by
        simp
        omega
      exact congrArg Int32.ofNat bits
    rw [kept, Int32.toInt_ofNat_of_lt (by omega)]
    omega
  next large =>
    have high := Int32.toInt_lt (JSValue.float64 (.ofInt n)).getInt
    omega

theorem newUint32_sound (n : Nat) : newUint32 n ≠ .exception := by
  unfold newUint32
  split <;> exact nofun

def position (i : Int32) : Nat := i.toNatClampNeg

theorem position_lt {i : Int32} : position i < 2 ^ 31 := by
  have high := Int32.toInt_lt i
  unfold position
  rw [← Int32.toNat_toInt]
  omega

theorem propertyKey_length (atoms : JSString → Bool) :
    propertyKey atoms (ascii "length") = some (.name arrayLength.name) := by
  unfold propertyKey
  split
  · decide
  · decide

theorem indexKey_natural {i : Int32} (natural : 0 ≤ i) : indexKey i.toUInt32 = .index (position i) := by
  have high := @position_lt i
  unfold indexKey
  rw [Int32.toNat_toUInt32_of_le natural, if_neg]
  · rfl
  · unfold position at high
    omega

theorem position_injective {i j : Int32} (natural : 0 ≤ i) (natural' : 0 ≤ j)
    (same : position i = position j) : i = j := by
  apply Int32.toInt_inj.1
  have one := Int32.le_iff_toInt_le.1 natural
  have two := Int32.le_iff_toInt_le.1 natural'
  unfold position at same
  rw [← Int32.toNat_toInt, ← Int32.toNat_toInt] at same
  simp only [Int32.toInt_zero] at one two
  omega

end Numbers

section Operations
variable {roots : Addr → Prop} {spared : JSString → Prop} {s s' : World × Objects} {env : JNIEnv}
  {h : History (World × Objects) Prim ForeignCall Answer} {pointer : Addr}

theorem exec_length {n : Nat} {m : Int32}
    (found : Finds arrayLength s.2.store pointer (.name arrayLength.name) (.value (newUint32 n)))
    (run : Exec (stored roots) (Wrapper.length env pointer) s h (.returned m) s') :
    m = (newUint32 n).getInt ∧ s'.1.javaException = s.1.javaException := by
  obtain ⟨a, t, rest, reply, tail, -⟩ := exec_enter run
  have reads : (EngineCall.getPropertyStr (.object pointer) (ascii "length")).access s.2.atoms =
      some (.get pointer (.name arrayLength.name)) := by
    simp only [EngineCall.access, propertyKey_length, Option.map_some]
  have ordinary : Found.value (newUint32 n) ≠ .code := by
    intro code
    cases code
  obtain ⟨rfl, -, agenda⟩ := @answered_get _ (fun _ => False) _ _ _ _ _ _ _ reads found ordinary reply
  have sound : (newUint32 n).isException = false := decide_eq_false (newUint32_sound n)
  have uncounted : freeValue (newUint32 n) = .ret () := by
    unfold newUint32
    split <;> rfl
  rw [Prog.bind_ret] at tail
  simp only [Answer.toValue, foundValue, sound, Bool.false_eq_true, if_false, uncounted] at tail
  obtain ⟨-, result, rfl⟩ := exec_ret tail
  cases result
  exact ⟨rfl, congrArg Agenda.javaException agenda⟩

theorem exec_get {index : Int32} {f : Found JSValue} {o : Option JavaObject}
    (found : Finds arrayLength s.2.store pointer (indexKey index.toUInt32) f) (ordinary : f ≠ .code)
    (run : Exec (stored roots) (Wrapper.get env pointer index) s h (.returned o) s') :
    Shown (foundValue f) o ∧ s'.1.javaException = s.1.javaException := by
  obtain ⟨a, t, rest, reply, tail, -⟩ := exec_enter run
  obtain ⟨rfl, -, agenda⟩ := @answered_get _ (fun _ => False) _ _ _ _ _ _ _ rfl found ordinary reply
  rw [Prog.bind_ret] at tail
  replace tail : Exec (stored roots) (toJavaObject env (.object pointer) (foundValue f) true) t rest
      (.returned o) s' := tail
  exact ⟨(@exec_shown _ (fun _ => False) _ _ _ _ _ _ _ tail).1, (exec_quietly tail).trans
    (congrArg Agenda.javaException agenda)⟩

def elementValue (env : JNIEnv) (value : Option JavaObject) : Program JSValue := do
  let child ← toJSValue env value
  (act (.dupValue child)).when !child.isString
  return child

theorem set_eq {value : Option JavaObject} {index : Int32} : Wrapper.set env pointer value index =
    (elementValue env value).bind fun child =>
      .enter (.engine (.setPropertyUint32 (.object pointer) index.toUInt32 child)) fun _ => .ret () := by
  have inner : ∀ child, ((act (.dupValue child)).when !child.isString).bind (fun _ =>
      Prog.bind (enterInt (.setPropertyUint32 (.object pointer) index.toUInt32 child)) fun _ => .ret ()) =
      (((act (.dupValue child)).when !child.isString).bind fun _ => .ret child).bind fun child =>
        .enter (.engine (.setPropertyUint32 (.object pointer) index.toUInt32 child)) fun _ => .ret () := by
    intro child
    rw [Prog.bind_assoc]
    rfl
  have outer := Prog.bind_assoc (toJSValue env value) (fun child =>
    ((act (.dupValue child)).when !child.isString).bind fun _ => .ret child) fun child =>
      .enter (.engine (.setPropertyUint32 (.object pointer) index.toUInt32 child)) fun _ => .ret ()
  exact (congrArg _ (funext inner)).trans outer.symm

theorem exec_elementValue {value : Option JavaObject} {c : JSValue} (can : supported value = true)
    (run : Exec (stored roots) (elementValue env value) s h (.returned c) s') :
    Converted value c ∧ MadeFor s'.1 value c ∧ Untouched roots spared s s' ∧
      s'.1.javaException = s.1.javaException := by
  rcases exec_bind run with ⟨d, t, converting, later, first, second, -⟩ | ⟨-, dead⟩
  · obtain ⟨converted, made, untouched, -⟩ := exec_converted first
    have quiet := exec_supported can first
    cases text : d.isString with
    | true =>
      rw [text] at second
      obtain ⟨-, same, rfl⟩ := exec_ret second
      cases same
      exact ⟨converted, made, untouched, quiet⟩
    | false =>
      rw [text] at second
      obtain ⟨a, u, rest, acts, tail, -⟩ := exec_prim second
      obtain ⟨-, same, rfl⟩ := exec_ret tail
      cases same
      have agenda := agenda_exec (acts_stored acts).1
      refine ⟨converted, ?_, untouched.trans (untouched_acts acts nofun),
        (congrArg Agenda.javaException agenda).trans quiet⟩
      intro f same p here
      rw [callbacks_exec (acts_stored acts).1 nofun]
      exact made f same p here
  · cases dead

theorem exec_set {index : Int32} {value : Option JavaObject}
    (run : Exec (stored roots) (Wrapper.set env pointer value index) s h (.returned ()) s') :
    ∃ c t before a, Exec (stored roots) (elementValue env value) s before (.returned c) t ∧
      (stored roots).reply (.engine (.setPropertyUint32 (.object pointer) index.toUInt32 c)) t a s' ∧
      h = before ++ [.call (.engine (.setPropertyUint32 (.object pointer) index.toUInt32 c)) a s'] := by
  rw [set_eq] at run
  rcases exec_bind run with ⟨c, t, before, later, first, second, rfl⟩ | ⟨-, dead⟩
  · obtain ⟨a, u, rest, reply, ending, rfl⟩ := exec_enter second
    obtain ⟨rfl, -, rfl⟩ := exec_ret ending
    exact ⟨c, t, before, a, first, reply, rfl⟩
  · cases dead

end Operations

section Calls
variable {S : Setting} {s s' : World × Objects} {a : Answer} {pointer : Addr} {index : Int32}
  {value : Option JavaObject}

theorem reply_length {n : Nat} (held : S.roots pointer)
    (found : Finds arrayLength s.2.store pointer (.name arrayLength.name) (.value (newUint32 n)))
    (reply : StoredReply S (.length pointer) s a s') : a = .int (newUint32 n).getInt := by
  obtain ⟨w, st, h, b, u, -, untouched, clear, run, -, rfl, -⟩ := reply
  rcases exec_bind run with ⟨m, v, before, after, first, last, -⟩ | ⟨-, dead⟩
  · obtain ⟨-, same, rfl⟩ := exec_ret last
    cases same
    obtain ⟨rfl, quiet⟩ := exec_length (finds_keeps untouched.objects held found) first
    exact seen_clear (quiet.trans clear)
  · cases dead

theorem reply_at {f : Found JSValue} (held : S.roots pointer)
    (found : Finds arrayLength s.2.store pointer (indexKey index.toUInt32) f) (ordinary : f ≠ .code)
    (reply : StoredReply S (.get pointer index) s a s') :
    ∃ o, a = .javaReturn o ∧ Shown (foundValue f) o := by
  obtain ⟨w, st, h, b, u, -, untouched, clear, run, -, rfl, -⟩ := reply
  rcases exec_bind run with ⟨o, v, before, after, first, last, -⟩ | ⟨-, dead⟩
  · obtain ⟨-, same, rfl⟩ := exec_ret last
    cases same
    obtain ⟨shown, quiet⟩ := exec_get (finds_keeps untouched.objects held found) ordinary first
    exact ⟨o, seen_clear (quiet.trans clear), shown⟩
  · cases dead

theorem reply_element (can : supported value = true)
    (reply : StoredReply S (.set pointer value index) s a s') :
    ∃ c t b u, Converted value c ∧ MadeFor t.1 value c ∧ Untouched S.roots S.spared s t ∧
      (stored S.roots).reply (.engine (.setPropertyUint32 (.object pointer) index.toUInt32 c)) t b u ∧
      Untouched S.roots S.spared u s' ∧
      ∀ st, (stored S.roots).reply (.engine (.setPropertyUint32 (.object pointer) index.toUInt32 c)) t b
        (u.1, st) → StoredReply S (.set pointer value index) s a (s'.1, st) := by
  obtain ⟨w, st, h, d, u, others, untouched, clear, run, steady, rfl, rfl⟩ := reply
  rcases exec_bind run with ⟨⟨⟩, v, within, after, first, last, rfl⟩ | ⟨-, dead⟩
  · obtain ⟨rfl, same, rfl⟩ := exec_ret last
    cases same
    obtain ⟨c, t, before, b, converting, sets, rfl⟩ := exec_set first
    obtain ⟨converted, made, kept, -⟩ := exec_elementValue can converting
    refine ⟨c, t, b, u, converted, made, untouched.toUntouched.trans kept, sets, untouched_seen _ _ u, ?_⟩
    intro st' sets'
    have again : Exec (stored S.roots) (Wrapper.set (.ofThread S.thread) pointer value index) (w, st)
        (before ++ [.call (.engine (.setPropertyUint32 (.object pointer) index.toUInt32 c)) b (u.1, st')])
        (.returned ()) (u.1, st') := by
      rw [set_eq]
      exact exec_append converting (.enter sets' (.ret _ _))
    refine ⟨w, st, _, .unit, (u.1, st'), others, untouched, clear, exec_append again (.ret _ _), ?_, rfl, rfl⟩
    intro item member
    rw [List.append_nil] at member
    rcases List.mem_append.1 member with early | final
    · apply steady item
      rw [List.append_nil]
      exact List.mem_append_left _ early
    · rw [List.mem_singleton.1 final]
      exact steady (.call (.engine (.setPropertyUint32 (.object pointer) index.toUInt32 c)) b u) (by simp)
  · cases dead

end Calls

section Lists

def Returns (S : Setting) (call : ApiCall) (s : World × Objects) (a : Answer) (s' : World × Objects) :
    Prop :=
  ∃ h, Exec (storedJava S) call.program s h (.returned a) s'

theorem returns_native {S : Setting} {call : ApiCall} {op : NativeOp} (is : call.program = Java.native op)
    {s s' : World × Objects} {a : Answer} : Returns S call s a s' ↔ StoredReply S op s a s' := by
  unfold Returns
  rw [is]
  constructor
  · rintro ⟨h, run⟩
    obtain ⟨b, t, rest, reply, last, -⟩ := exec_enter run
    obtain ⟨-, same, rfl⟩ := exec_ret last
    cases same
    exact reply
  · intro reply
    exact ⟨_, .enter reply (.ret _ _)⟩

/-- A client sets an element of an array that takes new ones, and then asks for the length. -/
structure ListCall where
  setting : Setting
  receiver : Receiver
  held : setting.roots receiver.pointer
  start : World × Objects
  array : ObjectData
  here : start.2.store receiver.pointer = some array
  length : ArrayLength
  isArray : array.length = some length
  bounded : length.value < 2 ^ 32
  extensible : array.extensible = true
  index : Int32
  natural : 0 ≤ index
  value : Option JavaObject
  can : supported value = true
  /-- The prototypes come to an end. -/
  chain : ∃ r, Writes arrayLength start.2.store receiver.pointer (indexKey index.toUInt32) .undefined r
  stop : World × Objects
  sets : ∃ a, Returns setting (.set receiver.handle value index) start a stop
  measures : ∃ a u, Returns setting (.length receiver.handle) stop a u

namespace ListCall

abbrev pointer (c : ListCall) : Addr := c.receiver.pointer
def key (c : ListCall) : PropertyKey := indexKey c.index.toUInt32

def Sets (c : ListCall) (u : World × Objects) : Prop :=
  ∃ a, Returns c.setting (.set c.receiver.handle c.value c.index) c.start a u

def Measures (c : ListCall) (s : World × Objects) (n : Nat) : Prop :=
  ∀ a u, Returns c.setting (.length c.receiver.handle) s a u →
    (∃ e, a = .javaThrow e) ∨ ∃ m : Int32, a = .int m ∧ m.toInt = n

def Gets (c : ListCall) (s : World × Objects) (i : Int32) (x : JSValue) : Prop :=
  ∀ a u, Returns c.setting (.get c.receiver.handle i) s a u → ∃ o, a = .javaReturn o ∧ Shown x o

def Marshalled (c : ListCall) (w : World) (x : JSValue) : Prop :=
  Converted c.value x ∧ x ≠ .exception ∧ MadeFor w c.value x

/-- The laws of a list: of its length, of the element that is set, and of the others. -/
structure Lawful (c : ListCall) : Prop where
  length : c.Measures c.start c.length.value
  element : ∀ u, c.Sets u → ∃ x, c.Marshalled u.1 x ∧
    Finds arrayLength u.2.store c.pointer c.key (.value x) ∧ c.Gets u c.index x
  others : ∀ u, c.Sets u → ∀ j, 0 ≤ j → j ≠ c.index → ∀ f,
    Finds arrayLength c.start.2.store c.pointer (indexKey j.toUInt32) f →
    Finds arrayLength u.2.store c.pointer (indexKey j.toUInt32) f ∧ (f ≠ .code → c.Gets u j (foundValue f))
  grown : ∀ u, c.Sets u → c.Measures u (max c.length.value (position c.index + 1))

def Takes (c : ListCall) : Prop :=
  (∀ x, ∃ o, Writes arrayLength c.start.2.store c.pointer c.key x (.stored o)) ∧
    ∃ x, Converted c.value x ∧ x ≠ .exception

def Has (c : ListCall) : Prop :=
  (∀ x, Writes arrayLength c.start.2.store c.pointer c.key x .refused) ∧ position c.index < c.length.value ∧
    ∃ x, c.Marshalled c.start.1 x ∧ Finds arrayLength c.start.2.store c.pointer c.key (.value x)

/-- No length is above the ints, and the element can be set. -/
def Fits (c : ListCall) : Prop :=
  c.length.value < 2 ^ 31 ∧ position c.index + 1 < 2 ^ 31 ∧ (c.Takes ∨ c.Has)

variable {c : ListCall} {s u : World × Objects}

theorem key_eq (c : ListCall) : c.key = .index (position c.index) := indexKey_natural c.natural

theorem measures_of_length {o : ObjectData} {l : ArrayLength} (here : s.2.store c.pointer = some o)
    (array : o.length = some l) {a : Answer} (asks : Returns c.setting (.length c.receiver.handle) s a u) :
    a = .int (newUint32 l.value).getInt :=
  reply_length c.held (finds_length here array) ((returns_native rfl).1 asks)

theorem measures_small {o : ObjectData} {l : ArrayLength} (here : s.2.store c.pointer = some o)
    (array : o.length = some l) (small : l.value < 2 ^ 31) : c.Measures s l.value := by
  intro a u asks
  exact Or.inr ⟨_, measures_of_length here array asks, getInt_newUint32.2 small⟩

theorem gets_of_finds {i : Int32} {f : Found JSValue}
    (found : Finds arrayLength s.2.store c.pointer (indexKey i.toUInt32) f) (ordinary : f ≠ .code) :
    c.Gets s i (foundValue f) := by
  intro a u asks
  exact reply_at c.held found ordinary ((returns_native rfl).1 asks)

theorem sets_stored (takes : ∀ x, ∃ o, Writes arrayLength c.start.2.store c.pointer c.key x (.stored o))
    (sets : c.Sets u) : ∃ x, PropertySet c.setting.roots c.value c.pointer c.key c.start u x
      (c.array.put c.key x) := by
  obtain ⟨a, returns⟩ := sets
  obtain ⟨x, t, b, v, converted, made, untouched, reply, after, -⟩ :=
    reply_element c.can ((returns_native rfl).1 returns)
  obtain ⟨o, written⟩ := takes x
  obtain ⟨o', here, rfl, -⟩ := stored_put written
  cases c.here.symm.trans here
  have there := writes_keeps untouched.objects c.held written
  obtain ⟨-, stored, -⟩ := @answered_set _ c.setting.spared _ _ _ _ _ _ _ _ rfl there reply
  exact ⟨x, propertySet_of_writes c.held converted made untouched written (stored.trans after)⟩

theorem sets_refused (refuses : ∀ x, Writes arrayLength c.start.2.store c.pointer c.key x .refused)
    (sets : c.Sets u) : Untouched c.setting.roots c.setting.spared c.start u := by
  obtain ⟨a, returns⟩ := sets
  obtain ⟨x, t, b, v, -, -, untouched, reply, after, -⟩ :=
    reply_element c.can ((returns_native rfl).1 returns)
  have there := writes_keeps untouched.objects c.held (refuses x)
  obtain ⟨-, refused, -⟩ := @answered_refused _ c.setting.spared _ _ _ _ _ _ _ rfl there reply
  exact (untouched.trans refused).trans after

theorem sets_code (code : ∀ x, Writes arrayLength c.start.2.store c.pointer c.key x .code) (sets : c.Sets u)
    (st : Objects) : c.Sets (u.1, st) := by
  obtain ⟨a, returns⟩ := sets
  obtain ⟨x, t, b, v, -, -, untouched, reply, after, again⟩ :=
    reply_element c.can ((returns_native rfl).1 returns)
  have there := writes_keeps untouched.objects c.held (code x)
  have runs : ¬ Access.plain t.2 (.set c.pointer c.key x) := by
    rintro ⟨r, written, ordinary⟩
    exact ordinary (writes_unique written there)
  replace reply : engineReply c.setting.roots (.setPropertyUint32 (.object c.pointer) c.index.toUInt32 x)
      t b v := reply
  rcases reply with ⟨plain, -⟩ | ⟨-, reply⟩
  · exact absurd plain runs
  · exact ⟨a, (returns_native rfl).2 (again st (Or.inr ⟨runs, reply⟩))⟩

theorem putLength (c : ListCall) (x : JSValue) : (c.array.put c.key x).length =
    some { c.length with value := max c.length.value (position c.index + 1) } := by
  have grown : (c.array.put c.key x).length = c.array.length.map (·.holding c.key) := rfl
  rw [grown, c.isArray, c.key_eq]
  rfl

theorem stored_here {x : JSValue} (set : PropertySet c.setting.roots c.value c.pointer c.key c.start u x
    (c.array.put c.key x)) : u.2.store c.pointer = some (c.array.put c.key x) :=
  set.objects c.pointer _ (.root c.held) (Function.update_self c.pointer _ c.start.2.store)

theorem converted_same {v : Option JavaObject} {x y : JSValue} (one : Converted v x) (sound : x ≠ .exception)
    (two : Converted v y) : y ≠ .exception := by
  rintro rfl
  cases v with
  | none => cases two
  | some o =>
    cases o with
    | string text =>
      unfold Converted at one two
      cases made : newStringLen (ModifiedUtf8.encode text) with
      | none =>
        simp only [made] at one
        exact sound one
      | some string =>
        simp only [made] at two
        obtain ⟨p, same⟩ := two
        cases same
    | double d =>
      replace two : JSValue.exception = newFloat64 d := two
      unfold newFloat64 at two
      split at two <;> cases two
    | long n =>
      unfold Converted newInt64 at two
      dsimp only at two
      split at two
      · obtain ⟨p, same⟩ := two
        cases same
      · split at two <;> cases two
    | callFunction f =>
      obtain ⟨p, same⟩ := two
      cases same
    | other className => exact sound one
    | _ => cases two

theorem lawful_of_takes (takes : c.Takes) (small : c.length.value < 2 ^ 31)
    (fits : position c.index + 1 < 2 ^ 31) : c.Lawful := by
  obtain ⟨stores, y, also, sound⟩ := takes
  constructor
  · exact measures_small c.here c.isArray small
  · intro u sets
    obtain ⟨x, set⟩ := sets_stored stores sets
    have found := finds_keeps set.objects c.held (finds_stored set.written)
    refine ⟨x, ⟨set.converted, converted_same also sound set.converted, set.made⟩, found, ?_⟩
    exact gets_of_finds found nofun
  · intro u sets j natural other f found
    obtain ⟨x, set⟩ := sets_stored stores sets
    have apart : indexKey j.toUInt32 ≠ c.key := by
      rw [c.key_eq, indexKey_natural natural]
      intro same
      exact other (position_injective natural c.natural (Key.index.inj same))
    have name : indexKey j.toUInt32 ≠ .name arrayLength.name := by
      rw [indexKey_natural natural]
      exact nofun
    have later := finds_keeps set.objects c.held (finds_other set.written apart name found)
    exact ⟨later, gets_of_finds later⟩
  · intro u sets
    obtain ⟨x, set⟩ := sets_stored stores sets
    have all := measures_small (stored_here set) (putLength c x) (Nat.max_lt.2 ⟨small, fits⟩)
    exact all

theorem lawful_of_has (has : c.Has) (small : c.length.value < 2 ^ 31) : c.Lawful := by
  obtain ⟨refuses, inside, x, ⟨converted, sound, made⟩, found⟩ := has
  have name : c.key ≠ .name arrayLength.name := by
    rw [c.key_eq]
    exact nofun
  constructor
  · exact measures_small c.here c.isArray small
  · intro u sets
    have untouched := sets_refused refuses sets
    have later := finds_keeps untouched.objects c.held found
    refine ⟨x, ⟨converted, sound, ?_⟩, later, gets_of_finds later nofun⟩
    rintro f same p rfl
    obtain ⟨depth, there⟩ := found
    rw [untouched.functions p (refers_of_find (.root c.held) name there)]
    exact made f same p rfl
  · intro u sets j _ _ f there
    have later := finds_keeps (sets_refused refuses sets).objects c.held there
    exact ⟨later, gets_of_finds later⟩
  · intro u sets
    have untouched := sets_refused refuses sets
    have here := untouched.objects c.pointer c.array (.root c.held) c.here
    rw [Nat.max_eq_left inside]
    exact measures_small here c.isArray small

theorem small_of_lawful (lawful : c.Lawful) {o : ObjectData} {l : ArrayLength}
    (here : c.stop.2.store c.pointer = some o) (array : o.length = some l) :
    ((newUint32 l.value).getInt).toInt = max c.length.value (position c.index + 1) := by
  obtain ⟨a, u, asks⟩ := c.measures
  have answer := measures_of_length here array asks
  rcases lawful.grown c.stop c.sets a u asks with ⟨e, thrown⟩ | ⟨m, told, same⟩
  · rw [thrown] at answer
    cases answer
  · rw [told] at answer
    cases answer
    exact_mod_cast same

theorem fits_of_lawful (lawful : c.Lawful) : c.Fits := by
  obtain ⟨r, chain⟩ := c.chain
  obtain ⟨x, ⟨converted, sound, made⟩, found, -⟩ := lawful.element c.stop c.sets
  have plain : ∀ o, c.start.2.store c.pointer = some o → o.length.isSome = true →
      c.key ≠ .name arrayLength.name := by
    intro o _ _
    rw [c.key_eq]
    exact nofun
  rcases writes_alike chain plain with stores | refuses | code
  · obtain ⟨y, set⟩ := sets_stored stores c.sets
    have told := small_of_lawful lawful (stored_here set) (putLength c y)
    have small : max c.length.value (position c.index + 1) < 2 ^ 31 := getInt_newUint32.1
      (by exact_mod_cast told)
    exact ⟨by omega, by omega, Or.inl ⟨stores, x, converted, sound⟩⟩
  · have untouched := sets_refused refuses c.sets
    have here := untouched.objects c.pointer c.array (.root c.held) c.here
    have told := small_of_lawful lawful here c.isArray
    have bound := Int32.toInt_lt (newUint32 c.length.value).getInt
    have small : c.length.value < 2 ^ 31 := by omega
    rw [getInt_newUint32.2 small] at told
    have name : c.key ≠ .name arrayLength.name := by
      rw [c.key_eq]
      exact nofun
    obtain ⟨f, before⟩ := finds_of_refused (refuses x)
    have same := finds_unique (finds_keeps untouched.objects c.held before) found
    subst same
    refine ⟨small, by omega, Or.inr ⟨refuses, by omega, x, ⟨converted, sound, ?_⟩, before⟩⟩
    rintro g callback p rfl
    obtain ⟨depth, there⟩ := before
    rw [← untouched.functions p (refers_of_find (.root c.held) name there)]
    exact made g callback p rfl
  · obtain ⟨y, -, ⟨depth, gone⟩, -⟩ := lawful.element _
      (sets_code code c.sets ⟨fun _ => none, fun _ => false, fun _ _ _ here => by cases here⟩)
    cases depth <;> cases gone

end ListCall

/-- The laws hold exactly if no length is above the ints, and the array takes the value for the
    element or has it already. -/
theorem list_laws_iff (c : ListCall) : c.Lawful ↔ c.Fits := by
  constructor
  · exact ListCall.fits_of_lawful
  · rintro ⟨small, fits, takes | has⟩
    · exact ListCall.lawful_of_takes takes small fits
    · exact ListCall.lawful_of_has has small

def emptyArray : ObjectData where
  own := fun _ => none
  length := some ⟨0, true⟩
  proto := none
  extensible := true
  exotic := false
  dense := true
  above := by
    intro l _ i there
    cases there

/-- The last element an array can have for Java is set in an empty array, whose length is 0 then
    for the wrapper. -/
theorem last_element_lost : ¬ ∀ c : ListCall, c.Lawful := by
  intro lawful
  let r : Receiver := ⟨0, .jsArray, 2, 0⟩
  let k : PropertyKey := indexKey 2147483647
  let w : World := (World.fresh 1 fun _ => []).setCell 2 (some ⟨1, some .array, 1, 0, none⟩)
  let st : Objects := .one 2 emptyArray fun _ => rfl
  let before : World × Objects := (w, st)
  let after : World × Objects := (w, st.update 2 (emptyArray.put k .undefined))
  let roots : Addr → Prop := fun _ => True
  let S : Setting := ⟨0, roots, fun _ => False, fun _ => True⟩
  have stores : ∀ x, Writes arrayLength st.store 2 k x (.stored (emptyArray.put k x)) := fun x => ⟨0, rfl⟩
  have grown : (emptyArray.put k .undefined).length = some ⟨2147483648, true⟩ := rfl
  have found : Finds arrayLength after.2.store 2 (.name arrayLength.name) (.value (newUint32 2147483648)) :=
    finds_length (Function.update_self 2 _ st.store) grown
  have functions : ∀ {e : EngineCall} {st st' : Objects}, FunctionsKept roots e (w, st) (w, st') := by
    intro e st st' q _
    rfl
  have same : ∀ st : Objects, st.Stay roots st := fun st => ⟨.refl _, fun _ there => Or.inl there⟩
  have sets : Can (stored roots) ((NativeOp.set 2 none 2147483647).program 0) [] before
      fun b _ u => b = .unit ∧ u = after := by
    have silent : SilentReply (.engine (.setPropertyUint32 (.object 2) 2147483647 .undefined)) w (.int 1) w :=
      ⟨_, _, [], rfl, rfl, rfl, rfl⟩
    have reply : (stored roots).reply (.engine (.setPropertyUint32 (.object 2) 2147483647 .undefined)) before
        (.int 1) after := Or.inl ⟨⟨_, stores .undefined, by simp⟩, silent,
      Or.inl ⟨_, stores .undefined, rfl, same _⟩, functions⟩
    exact can_prim rfl (can_enter reply (can_ret ⟨rfl, rfl⟩))
  have measures : Can (stored roots) ((NativeOp.length 2).program 0) [] after fun _ _ u => u = after := by
    have silent : SilentReply (.engine (.getPropertyStr (.object 2) (ascii "length"))) w
        (.value (newUint32 2147483648)) w := ⟨_, _, [], rfl, rfl, rfl, rfl⟩
    have reply : engineReply roots (.getPropertyStr (.object 2) (ascii "length")) after
        (.value (newUint32 2147483648)) after := by
      simp only [engineReply, EngineCall.access, propertyKey_length, Option.map_some]
      exact Or.inl ⟨⟨_, found, by simp⟩, silent, ⟨same _, _, found, rfl⟩, functions⟩
    exact can_enter reply (can_ret rfl)
  obtain ⟨b, h, _, setting, rfl, rfl⟩ := sets
  obtain ⟨d, h', _, measuring, rfl⟩ := measures
  have first : StoredReply S (.set 2 none 2147483647) before .unit after :=
    ⟨_, _, h, _, _, ⟨[], [], [], rfl⟩, .refl _, rfl, setting, fun _ _ => trivial, rfl, rfl⟩
  have second : StoredReply S (.length 2) after d after :=
    ⟨_, _, h', _, _, ⟨[], [], [], rfl⟩, .refl _, rfl, measuring, fun _ _ => trivial, rfl, rfl⟩
  let c : ListCall := ⟨S, r, trivial, before, emptyArray, rfl, ⟨0, true⟩, rfl, by decide, rfl, 2147483647,
    by decide, none, rfl, ⟨_, stores .undefined⟩, after, ⟨_, (returns_native rfl).2 first⟩,
    ⟨_, _, (returns_native rfl).2 second⟩⟩
  have fits : position 2147483647 + 1 < 2 ^ 31 := (ListCall.fits_of_lawful (lawful c)).2.1
  revert fits
  decide

end Lists
end QuickJSBridge
