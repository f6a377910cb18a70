import QuickJSBridge.PropertyOperations

/- Storing a Java value in a property and reading it again. JS keeps numbers as int32, as doubles
   or as BigInts, and the Java type is made anew of what is found there. -/
namespace QuickJSBridge
open HostProgram ReentrantMachine ScriptObjects

section Exactness
variable {n : Int}

theorem parts_ofInt (nonzero : n ≠ 0) (small : n.natAbs < 2 ^ 53) :
    (Float64.ofInt n).exponent = n.natAbs.log2 + 1023 ∧
    (Float64.ofInt n).fraction + 2 ^ 52 = n.natAbs * 2 ^ (52 - n.natAbs.log2) ∧
    (Float64.ofInt n).negative = decide (n < 0) ∧ n.natAbs.log2 ≤ 52 := by
  generalize size : n.natAbs = m at small ⊢
  have positive : m ≠ 0 := by omega
  generalize bits : m.log2 = k
  have least : 2 ^ k ≤ m := by rw [← bits]; exact Nat.log2_self_le positive
  have most : m < 2 ^ (k + 1) := by rw [← bits]; exact Nat.lt_log2_self
  have short : k ≤ 52 := by
    by_contra long
    have far : 2 ^ 53 ≤ 2 ^ k := Nat.pow_le_pow_right (by omega) (by omega)
    omega
  have low : 2 ^ 52 ≤ m * 2 ^ (52 - k) := by
    calc 2 ^ 52 = 2 ^ k * 2 ^ (52 - k) := by rw [← Nat.pow_add]; congr 1; omega
      _ ≤ m * 2 ^ (52 - k) := Nat.mul_le_mul_right _ least
  have high : m * 2 ^ (52 - k) < 2 ^ 53 := by
    calc m * 2 ^ (52 - k) < 2 ^ (k + 1) * 2 ^ (52 - k) :=
          Nat.mul_lt_mul_of_pos_right most (Nat.two_pow_pos _)
      _ = 2 ^ 53 := by rw [← Nat.pow_add]; congr 1; omega
  have made : (Float64.ofInt n).bits = .ofNat 64 ((if n < 0 then 2 ^ 63 else 0) +
      (k + 1023) * 2 ^ 52 + (m * 2 ^ (52 - k) - 2 ^ 52)) := by
    unfold Float64.ofInt Float64.roundedSignificand
    rw [if_neg nonzero]
    simp only [size, bits, if_pos short, Nat.shiftLeft_eq]
    rfl
  generalize m * 2 ^ (52 - k) = s at low high made ⊢
  have number : (Float64.ofInt n).bits.toNat = (if n < 0 then 2 ^ 63 else 0) +
      (k + 1023) * 2 ^ 52 + (s - 2 ^ 52) := by
    rw [made, BitVec.toNat_ofNat, Nat.mod_eq_of_lt]
    split <;> omega
  refine ⟨?_, ?_, ?_, short⟩
  · unfold Float64.exponent
    rw [number, Nat.one_shiftLeft, Nat.one_shiftLeft]
    split <;> omega
  · unfold Float64.fraction
    rw [number, Nat.one_shiftLeft]
    split <;> omega
  · unfold Float64.negative
    rw [BitVec.msb_eq_decide, number]
    by_cases below : n < 0
    · simp only [below, if_true]
      simp
      omega
    · simp only [below, if_false]
      simp
      omega

theorem ofInt_exact (small : n.natAbs < 2 ^ 53) : (Float64.ofInt n).isFinite = true ∧
    (Float64.ofInt n).isInteger = true ∧ (Float64.ofInt n).truncated = n := by
  by_cases zero : n = 0
  · subst zero
    decide
  · obtain ⟨exponent, fraction, negative, short⟩ := parts_ofInt zero small
    have significand : (Float64.ofInt n).significand = n.natAbs * 2 ^ (52 - n.natAbs.log2) := by
      unfold Float64.significand
      rw [if_neg (by omega), Nat.one_shiftLeft]
      omega
    have scale : (Float64.ofInt n).scale = n.natAbs.log2 - 52 := by
      unfold Float64.scale
      omega
    have finite : (Float64.ofInt n).isFinite = true := by
      unfold Float64.isFinite
      simp only [exponent, decide_eq_true_eq]
      omega
    have down : (-(Float64.ofInt n).scale).toNat = 52 - n.natAbs.log2 := by omega
    refine ⟨finite, ?_, ?_⟩
    · unfold Float64.isInteger
      rw [if_pos finite, down, significand, Nat.one_shiftLeft, Nat.mul_mod_left]
      simp
    · have size : (if 0 ≤ (Float64.ofInt n).scale then
          (Float64.ofInt n).significand <<< (Float64.ofInt n).scale.toNat
          else (Float64.ofInt n).significand >>> (-(Float64.ofInt n).scale).toNat) = n.natAbs := by
        split
        next up =>
          have all : n.natAbs.log2 = 52 := by omega
          have none : (Float64.ofInt n).scale.toNat = 0 := by omega
          rw [significand, none, all, Nat.shiftLeft_zero]
          omega
        next =>
          rw [down, significand, Nat.shiftRight_eq_div_pow]
          exact Nat.mul_div_cancel _ (Nat.two_pow_pos _)
      unfold Float64.truncated
      rw [size, negative]
      by_cases below : n < 0
      · simp only [below, decide_true, if_true]
        omega
      · simp only [below, decide_false, Bool.false_eq_true, if_false]
        omega

end Exactness
section RoundTrips

structure Receiver where
  id : Nat
  cls : HandleClass
  pointer : Addr
  objPointer : Nat

def Receiver.handle (r : Receiver) : Option JavaObject := some (.handle r.id r.cls r.pointer r.objPointer)

/-- A supported value is stored in a property that takes values, and read again by a getter.
    Nobody else makes an atom of the name's bytes. -/
structure RoundTrip where
  setting : Setting
  receiver : Receiver
  held : setting.roots receiver.pointer
  name : JavaString
  aside : Aside setting.spared (ModifiedUtf8.encode name)
  value : JavaObject
  noCallback : supported (some value) = true ∧ Wrapper.isCallFunction (some value) = false
  getter : Option JavaObject → Option JavaString → JavaProgram
  start : World × Objects
  ordinary : TakesAny start.2 receiver.pointer (ModifiedUtf8.encode name)
  history : History (World × Objects) JavaPrim NativeOp Answer
  answer : Answer
  stop : World × Objects
  run : Exec (storedJava setting)
    (Java.andThen (Java.setProperty receiver.handle (some name) (some value))
      (getter receiver.handle (some name))) start history (.returned answer) stop

theorem roundTrip_reads (r : RoundTrip) : ∃ k c s h, Converted (some r.value) c ∧
    Settled r.setting.roots s.2 (ModifiedUtf8.encode r.name) k ∧
    Finds arrayLength s.2.store r.receiver.pointer k (.value c) ∧
    Exec (storedJava r.setting) (r.getter r.receiver.handle (some r.name)) s h (.returned r.answer) r.stop := by
  obtain ⟨S, receiver, held, name, aside, value, ⟨can, noCallback⟩, getter, start, ordinary, h,
    answer, stop, run⟩ := r
  have sets : Java.setProperty receiver.handle (some name) (some value) =
      Java.native (.setProperty receiver.pointer (some name) (some value)) := by
    cases value with
    | callFunction f => cases noCallback
    | _ => rfl
  rw [sets] at run
  rcases exec_bind run with ⟨a, t, before, after, first, rest, -⟩ | ⟨-, dead⟩
  · obtain ⟨b, u, later, reply, last, -⟩ := exec_enter first
    obtain ⟨-, same, rfl⟩ := exec_ret last
    cases same
    obtain ⟨rfl, k, c, o, set⟩ := reply_set held can aside ordinary reply
    exact ⟨k, c, t, after, set.converted, set.settled,
      finds_keeps set.objects held (finds_stored set.written), rest⟩
  · cases dead

def emptyObject : ObjectData where
  own := fun _ => none
  length := none
  proto := none
  extensible := true
  exotic := false
  dense := false
  above := by
    intro l none
    cases none

theorem long_roundTrip {getter : Option JavaObject → Option JavaString → JavaProgram}
    {f : Answer → Answer} (asks : getter (some (.handle 0 .jsObject 1 0)) (some []) =
      .enter (.getProperty 1 (some [])) fun a => .ret (f a)) :
    ∃ r : RoundTrip, r.value = .long 1 ∧ r.getter = getter ∧
      r.answer = f (.javaReturn (some (.integer 1))) := by
  let k : PropertyKey := .name (.ofUnits [])
  let st : Objects := .one 1 emptyObject fun _ => rfl
  let before : World × Objects := (World.fresh 1 fun _ => [], st)
  let after : World × Objects := (before.1, st.update 1 (emptyObject.put k (.int 1)))
  let roots : Addr → Prop := fun _ => True
  have stores : ∀ c, Writes arrayLength st.store 1 k c (.stored (emptyObject.put k c)) := fun c => ⟨0, rfl⟩
  have takes : TakesAny st 1 [] := by
    refine ⟨rfl, ?_⟩
    rintro key (⟨-, known, -⟩ | decoded) c
    · cases known
    · cases decoded
      exact ⟨_, stores c⟩
  have found : Finds arrayLength after.2.store 1 k (.value (.int 1)) := finds_stored (stores (.int 1))
  have functions : ∀ {e : EngineCall} {st st' : Objects}, FunctionsKept roots e (before.1, st)
    (before.1, st') := by
    intro e st st' q _
    rfl
  have same : ∀ st : Objects, st.Stay roots st := fun st => ⟨.refl _, fun _ there => Or.inl there⟩
  have sets : Can (stored roots) ((NativeOp.setProperty 1 (some []) (some (.long 1))).program 0) [] before
      fun b _ u => b = .unit ∧ u = after := by
    have silent : SilentReply (.engine (.setPropertyStr (.object 1) [] (.int 1))) before.1 (.int 1)
        after.1 := ⟨_, _, [], rfl, rfl, rfl, rfl⟩
    have reply : (stored roots).reply (.engine (.setPropertyStr (.object 1) [] (.int 1))) before (.int 1)
        after := Or.inl ⟨⟨_, stores (.int 1), by simp⟩, silent,
      Or.inl ⟨_, stores (.int 1), rfl, same _⟩, functions⟩
    exact can_prim rfl (can_prim rfl (can_enter reply (can_ret ⟨rfl, rfl⟩)))
  have gets : Can (stored roots) ((NativeOp.getProperty 1 (some [])).program 0) [] after
      fun b _ u => b = .javaReturn (some (.integer 1)) ∧ u = after := by
    have silent : SilentReply (.engine (.getPropertyStr (.object 1) [])) after.1 (.value (.int 1)) after.1 :=
      ⟨_, _, [], rfl, rfl, rfl, rfl⟩
    have named : (EngineCall.getPropertyStr (.object 1) []).access after.2.atoms = some (.get 1 k) := rfl
    have reply : engineReply roots (.getPropertyStr (.object 1) []) after (.value (.int 1)) after := by
      simp only [engineReply, named]
      exact Or.inl ⟨⟨_, found, by simp⟩, silent, ⟨same _, _, found, rfl⟩, functions⟩
    exact can_prim rfl (can_enter reply (can_prim rfl (can_ret ⟨rfl, rfl⟩)))
  obtain ⟨_, h, _, setting, rfl, rfl⟩ := sets
  obtain ⟨_, h', _, getting, rfl, rfl⟩ := gets
  let S : Setting := ⟨0, roots, fun _ => False, fun _ => True⟩
  have first : StoredReply S (.setProperty 1 (some []) (some (.long 1))) before .unit after :=
    ⟨_, _, h, _, _, ⟨[], [], [], rfl⟩, .refl _, rfl, setting, fun _ _ => trivial, rfl, rfl⟩
  have second : StoredReply S (.getProperty 1 (some [])) after (.javaReturn (some (.integer 1))) after :=
    ⟨_, _, h', _, _, ⟨[], [], [], rfl⟩, .refl _, rfl, getting, fun _ _ => trivial, rfl, rfl⟩
  have reads : Exec (storedJava S) (getter (some (.handle 0 .jsObject 1 0)) (some [])) after
      [.call (.getProperty 1 (some [])) (.javaReturn (some (.integer 1))) after]
      (.returned (f (.javaReturn (some (.integer 1))))) after := by
    rw [asks]
    exact .enter second (.ret _ _)
  have run : Exec (storedJava S) (Java.andThen (Java.setProperty (some (.handle 0 .jsObject 1 0)) (some [])
      (some (.long 1))) (getter (some (.handle 0 .jsObject 1 0)) (some []))) before _ _ _ := .enter first reads
  exact ⟨⟨S, ⟨0, .jsObject, 1, 0⟩, trivial, [], Or.inl rfl, .long 1, ⟨rfl, rfl⟩, getter, before,
    takes, _, _, _, run⟩, rfl, rfl, rfl⟩

end RoundTrips

section Integers

/-- `longValue()` of an Integer or a Long. -/
def JavaObject.longValue : JavaObject → Option Int
  | .integer n => some n.toInt
  | .long n => some n.toInt
  | _ => none

theorem newInt64_int {n : Int64} (fits : n.toInt32.toInt = n.toInt) : newInt64 n = .int n.toInt32 := by
  rw [newInt64, if_pos fits]

theorem newInt64_double {n : Int64} (large : n.toInt32.toInt ≠ n.toInt) :
    newInt64 n = .float64 (.ofInt n.toInt) := by
  rw [newInt64, if_neg large]

theorem double_shown {n : Int64} (small : n.toInt.natAbs < 2 ^ 53) {o : Option JavaObject}
    (shown : Shown (.float64 (.ofInt n.toInt)) o) : o = some (.long n) := by
  obtain ⟨finite, integral, truncated⟩ := ofInt_exact small
  replace shown : o = some (if (Float64.ofInt n.toInt).isInteger then
      .long (Float64.ofInt n.toInt).toInt64 else .double (.ofInt n.toInt)) := shown
  rw [integral, if_pos rfl] at shown
  have low := Int64.le_toInt n
  have high := Int64.toInt_lt n
  rw [shown, Float64.toInt64, finite, truncated, if_pos, Int64.ofInt_toInt]
  simp
  omega

theorem long_shown {n : Int64} {c : JSValue} {o : Option JavaObject}
    (converted : Converted (some (.long n)) c) (shown : Shown c o) :
    (n.toInt32.toInt = n.toInt ∧ o = some (.integer n.toInt32)) ∨
    (n.toInt32.toInt ≠ n.toInt ∧ o = some (.long n)) := by
  unfold Converted at converted
  dsimp only at converted
  have low := Int32.le_toInt n.toInt32
  have high := Int32.toInt_lt n.toInt32
  split at converted
  next large =>
    obtain ⟨p, rfl⟩ := converted
    replace shown : o = some (.long (.ofInt n.toInt)) := shown
    rw [Int64.ofInt_toInt] at shown
    refine Or.inr ⟨?_, shown⟩
    unfold maxSafeInteger at large
    omega
  next small =>
    subst converted
    unfold maxSafeInteger at small
    by_cases fits : n.toInt32.toInt = n.toInt
    · rw [newInt64_int fits] at shown
      exact Or.inl ⟨fits, shown⟩
    · rw [newInt64_double fits] at shown
      refine Or.inr ⟨fits, double_shown ?_ shown⟩
      omega

theorem integer_shown {v : JavaObject} {n : Int} {c : JSValue} {o : Option JavaObject}
    (boxed : v.longValue = some n) (converted : Converted (some v) c) (shown : Shown c o) :
    ∃ x, o = some x ∧ x.longValue = some n := by
  cases v with
  | integer m =>
    subst converted
    exact ⟨.integer m, shown, boxed⟩
  | long m =>
    rcases long_shown converted shown with ⟨fits, rfl⟩ | ⟨-, rfl⟩
    · exact ⟨_, rfl, (congrArg some fits).trans boxed⟩
    · exact ⟨_, rfl, boxed⟩
  | _ => cases boxed

theorem converted_sound {v : JavaObject} {n : Int} {c : JSValue} (boxed : v.longValue = some n)
    (converted : Converted (some v) c) : c ≠ .exception := by
  rintro rfl
  cases v with
  | integer m => cases converted
  | long m =>
    unfold Converted at converted
    dsimp only at converted
    split at converted
    · obtain ⟨p, same⟩ := converted
      cases same
    · unfold newInt64 at converted
      split at converted <;> cases converted
  | _ => cases boxed

/-- An Integer or Long that is stored in a property is read as an Integer or Long of the same
    value. -/
theorem integers_survive (r : RoundTrip) (reads : r.getter = Java.getProperty) (n : Int)
    (boxed : r.value.longValue = some n) :
    ∃ o, r.answer = .javaReturn (some o) ∧ o.longValue = some n := by
  obtain ⟨k, c, s, h, converted, settled, found, run⟩ := roundTrip_reads r
  rw [reads] at run
  obtain ⟨a, t, later, reply, last, -⟩ := exec_enter run
  obtain ⟨-, same, -⟩ := exec_ret last
  cases same
  obtain ⟨o, answer, shown, -⟩ := reply_get r.held r.aside settled found
    nofun (converted_sound boxed converted) reply
  obtain ⟨x, rfl, same⟩ := integer_shown boxed converted shown
  exact ⟨x, answer, same⟩

/-- The long comes back as an Integer. -/
theorem long_survives : ∃ r : RoundTrip, r.value = .long 1 ∧
    ∃ o, r.answer = .javaReturn (some o) ∧ o.longValue = some 1 := by
  obtain ⟨r, value, reads, -⟩ := @long_roundTrip Java.getProperty id rfl
  exact ⟨r, value, integers_survive r reads 1 (by rw [value]; rfl)⟩

end Integers

section Typed

/-- The values the overloads of `setProperty` take that have a getter of their own type. -/
inductive TypedValue where
  | integer (n : Int32)
  | long (n : Int64)
  | double (d : Float64) (finite : d.isFinite = true)
  | boolean (b : Bool)
  | object (id : Nat) (cls : HandleClass) (pointer : Addr) (objPointer : Nat)

namespace TypedValue

def boxed : TypedValue → JavaObject
  | .integer n => .integer n
  | .long n => .long n
  | .double d _ => .double d
  | .boolean b => .boolean b
  | .object id cls pointer objPointer => .handle id cls pointer objPointer

def getter : TypedValue → Option JavaObject → Option JavaString → JavaProgram
  | .integer _ => Java.getInteger
  | .long _ => Java.getLong
  | .double _ _ => Java.getDouble
  | .boolean _ => Java.getBoolean
  | .object _ _ _ _ => Java.getJSObject

def ofType : TypedValue → JavaObject → Bool
  | .integer _ => JavaObject.isInteger
  | .long _ => JavaObject.isLong
  | .double _ _ => JavaObject.isDouble
  | .boolean _ => JavaObject.isBoolean
  | .object _ _ _ _ => JavaObject.isJSObject

theorem getter_eq (v : TypedValue) : v.getter = Java.typedGetter v.ofType := by
  cases v <;> rfl

/-- The values whose type can be told from what JS makes of them. -/
def keepsType : TypedValue → Bool
  | .long n => n.toInt32.toInt ≠ n.toInt
  | .double d _ => !d.isInteger
  | _ => true

end TypedValue

/-- `equals`, for doubles that are numbers. -/
def JavaObject.equals : JavaObject → JavaObject → Bool
  | .handle _ cls pointer _, .handle _ cls' pointer' _ => cls = cls' && pointer = pointer'
  | o, o' => o = o'

/-- A typed value that is stored and asked for by the getter of its type. A handle's object
    stays an object of that class. -/
structure TypedRun where
  value : TypedValue
  trip : RoundTrip
  stores : trip.value = value.boxed
  reads : trip.getter = value.getter
  live : ∀ id cls pointer objPointer, value = .object id cls pointer objPointer →
    ∀ w, trip.setting.steady w → (w.classOf (.object pointer)).map handleClass = some cls

def TypedRun.Agrees (r : TypedRun) : Prop :=
  ∃ o, r.trip.answer = .javaReturn (some o) ∧ r.value.boxed.equals o = true

theorem double_converted {d : Float64} {c : JSValue} {o : Option JavaObject}
    (converted : Converted (some (.double d)) c) (shown : Shown c o) :
    (d.isInteger = true ∧ ∃ x, o = some x ∧ x.isDouble = false) ∨
    (d.isInteger = false ∧ o = some (.double d)) := by
  subst converted
  by_cases int32 : Float64.ofInt d.toInt32.toInt = d
  · rw [newFloat64, if_pos int32] at shown
    have low := Int32.le_toInt d.toInt32
    have high := Int32.toInt_lt d.toInt32
    have integral := (@ofInt_exact d.toInt32.toInt (by omega)).2.1
    rw [int32] at integral
    exact Or.inl ⟨integral, _, shown, rfl⟩
  · rw [newFloat64, if_neg int32] at shown
    replace shown : o = some (if d.isInteger then .long d.toInt64 else .double d) := shown
    cases integral : d.isInteger with
    | true =>
      rw [integral, if_pos rfl] at shown
      exact Or.inl ⟨rfl, _, shown, rfl⟩
    | false =>
      rw [integral] at shown
      exact Or.inr ⟨rfl, shown⟩

theorem boxed_converted {v : TypedValue} {c : JSValue} (converted : Converted (some v.boxed) c) :
    c ≠ .exception := by
  cases v with
  | integer n => exact @converted_sound (.integer n) _ _ rfl converted
  | long n => exact @converted_sound (.long n) _ _ rfl converted
  | double d finite =>
    rintro rfl
    replace converted : JSValue.exception = newFloat64 d := converted
    unfold newFloat64 at converted
    split at converted <;> cases converted
  | boolean b =>
    rintro rfl
    cases converted
  | object id cls pointer objPointer =>
    rintro rfl
    cases converted

/-- The getter of the same type returns the value exactly where JS does not lose its type: longs
    that are int32 come back as Integers, and integral doubles as Integers or Longs. -/
theorem typed_getter_iff (r : TypedRun) : r.Agrees ↔ r.value.keepsType = true := by
  obtain ⟨k, c, s, h, converted, settled, found, run⟩ := roundTrip_reads r.trip
  rw [r.stores] at converted
  have asks : ∃ o, r.trip.answer = .javaReturn (o.filter r.value.ofType) ∧ Shown c o ∧
      ∀ p cls, c = .object p →
        (∀ w, r.trip.setting.steady w → (w.classOf (.object p)).map handleClass = some cls) →
        ∃ id objPointer, o = some (.handle id cls p objPointer) := by
    rw [r.reads, r.value.getter_eq] at run
    obtain ⟨a, t, later, reply, last, -⟩ := exec_enter run
    obtain ⟨o, rfl, shown, handle⟩ := reply_get r.trip.held r.trip.aside settled found nofun
      (boxed_converted converted) reply
    obtain ⟨-, same, -⟩ := exec_ret last
    replace same : Outcome.returned r.trip.answer =
      .returned (.javaReturn (o.filter r.value.ofType)) := same
    exact ⟨o, Outcome.returned.inj same, shown, handle⟩
  obtain ⟨o, answer, shown, handle⟩ := asks
  have agrees : ∀ {x}, o = some x → r.value.ofType x = true → r.value.boxed.equals x = true → r.Agrees := by
    intro x made typed equal
    rw [made, Option.filter_some_pos typed] at answer
    exact ⟨x, answer, equal⟩
  have fails : ∀ {x}, o = some x → r.value.ofType x = false → ¬ r.Agrees := by
    rintro x made typed ⟨y, same, -⟩
    rw [made, Option.filter_some_neg typed, same] at answer
    cases answer
  have live := r.live
  clear answer run
  cases typed : r.value with
  | integer n =>
    rw [typed] at converted agrees
    subst converted
    exact iff_of_true (agrees shown rfl (by simp [TypedValue.boxed, JavaObject.equals])) rfl
  | boolean b =>
    rw [typed] at converted agrees
    subst converted
    exact iff_of_true (agrees shown rfl (by simp [TypedValue.boxed, JavaObject.equals])) rfl
  | object id cls p objPointer =>
    rw [typed] at converted agrees
    subst converted
    obtain ⟨id', objPointer', made⟩ := handle p cls rfl (live id cls p objPointer typed)
    exact iff_of_true (agrees made rfl (by simp [TypedValue.boxed, JavaObject.equals])) rfl
  | long n =>
    rw [typed] at converted agrees fails
    rcases long_shown converted shown with ⟨fits, made⟩ | ⟨large, made⟩
    · exact iff_of_false (fails made rfl) fun keeps => of_decide_eq_true keeps fits
    · exact iff_of_true (agrees made rfl (by simp [TypedValue.boxed, JavaObject.equals]))
        (decide_eq_true large)
  | double d finite =>
    rw [typed] at converted agrees fails
    rcases double_converted converted shown with ⟨integral, x, made, other⟩ | ⟨fraction, made⟩
    · apply iff_of_false (fails made other)
      simp [TypedValue.keepsType, integral]
    · apply iff_of_true (agrees made rfl (by simp [TypedValue.boxed, JavaObject.equals]))
      simp [TypedValue.keepsType, fraction]

/-- The long 1 is not found by getLong. -/
theorem long_not_read : ¬ ∀ r : TypedRun, r.Agrees := by
  intro agrees
  obtain ⟨r, value, reads, answer⟩ := @long_roundTrip Java.getLong
    (Java.onlyOf JavaObject.isLong) rfl
  obtain ⟨o, same, -⟩ := agrees ⟨.long 1, r, value, reads, nofun⟩
  rw [answer] at same
  cases same

end Typed
end QuickJSBridge
