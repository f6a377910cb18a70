import QuickJSBridge.ObjectAccounts

/- Numbers across the border to Java. JS has one number type and BigInt; toJavaObject picks
   Integer, Long or Double by the tag and by whether the value is integral. -/
namespace QuickJSBridge
open HostProgram ReentrantMachine

/-- What a number denotes, on either side. The integer zero is the positive one. -/
inductive Magnitude where
  | nan
  | infinite (negative : Bool)
  | negativeZero
  | exact (q : ℚ)

namespace Float64

def isNegativeZero (d : Float64) : Bool := d.isFinite && d.negative && d.significand = 0

def toRat (d : Float64) : ℚ :=
  (if d.negative then -1 else 1) * d.significand * 2 ^ d.scale

def magnitude (d : Float64) : Magnitude :=
  if d.isNaN then .nan
  else if !d.isFinite then .infinite d.negative
  else if d.isNegativeZero then .negativeZero
  else .exact d.toRat

end Float64

/-- The number or BigInt a JS value is. -/
def JSValue.magnitude : JSValue → Option Magnitude
  | .int n => some (.exact n.toInt)
  | .float64 d => some d.magnitude
  | .bigInt _ n => some (.exact n)
  | _ => none

def JavaObject.magnitude : JavaObject → Option Magnitude
  | .integer n => some (.exact n.toInt)
  | .long n => some (.exact n.toInt)
  | .double d => some d.magnitude
  | _ => none

section Integral
variable {d : Float64}

theorem toRat_integer (finite : d.isFinite = true) (integral : d.isInteger = true) :
    d.toRat = d.truncated := by
  unfold Float64.isInteger at integral
  rw [if_pos finite] at integral
  have size : (d.significand : ℚ) * 2 ^ d.scale =
      (if 0 ≤ d.scale then d.significand <<< d.scale.toNat
        else d.significand >>> (-d.scale).toNat : ℕ) := by
    by_cases up : 0 ≤ d.scale
    · obtain ⟨k, exponent⟩ := Int.eq_ofNat_of_zero_le up
      rw [if_pos up, exponent, Int.toNat_natCast, Nat.shiftLeft_eq]
      push_cast
      rfl
    · obtain ⟨k, exponent⟩ := Int.eq_ofNat_of_zero_le (show 0 ≤ -d.scale by omega)
      have divides : d.significand % (1 <<< (-d.scale).toNat) = 0 := by simpa [up] using integral
      rw [exponent, Int.toNat_natCast, Nat.one_shiftLeft] at divides
      obtain ⟨q, whole⟩ := Nat.dvd_of_mod_eq_zero divides
      have positive : (2 : ℚ) ^ k ≠ 0 := by positivity
      have down : d.scale = -(k : ℤ) := by omega
      rw [if_neg up, exponent, Int.toNat_natCast, Nat.shiftRight_eq_div_pow, whole,
        Nat.mul_div_cancel_left q (Nat.two_pow_pos k), down, zpow_neg, zpow_natCast]
      push_cast
      field_simp
  unfold Float64.toRat Float64.truncated
  dsimp only
  generalize (if 0 ≤ d.scale then d.significand <<< d.scale.toNat
    else d.significand >>> (-d.scale).toNat) = m at size ⊢
  rw [mul_assoc, size]
  split
  · push_cast
    rw [neg_one_mul]
  · push_cast
    rw [one_mul]

end Integral

/-- The doubles toJavaObject passes on: those that are not integral become a Double, those that
    are must fit a Long and not be negative zero. -/
def Float64.fitsLong (d : Float64) : Bool :=
  d.isFinite && !d.isNegativeZero && -0x8000000000000000 ≤ d.truncated &&
    d.truncated < 0x8000000000000000

/-- The numbers that cross unchanged. -/
def JSValue.crosses : JSValue → Bool
  | .float64 d => !d.isInteger || d.fitsLong
  | .bigInt _ n => -0x8000000000000000 ≤ n && n < 0x8000000000000000
  | _ => true

section Crossing

theorem toInt_toInt64 {d : Float64} (finite : d.isFinite = true)
    (low : -0x8000000000000000 ≤ d.truncated) (high : d.truncated < 0x8000000000000000) :
    d.toInt64.toInt = d.truncated := by
  unfold Float64.toInt64
  rw [finite, if_pos (by simp [low, high])]
  exact Int64.toInt_ofInt_of_le low high

theorem toInt64_far {d : Float64} (far : ¬ (d.isFinite = true ∧ -0x8000000000000000 ≤ d.truncated ∧
    d.truncated < 0x8000000000000000)) : d.toInt64 = .minValue := by
  unfold Float64.toInt64
  rw [if_neg]
  simpa [and_assoc] using far

theorem long_magnitude_iff {d : Float64} (integral : d.isInteger = true) :
    (JavaObject.long d.toInt64).magnitude = some d.magnitude ↔ d.fitsLong = true := by
  have nan : d.isNaN = false := by
    by_contra nan
    have notFinite : d.isFinite = false := by
      simp [Float64.isNaN, Float64.isFinite] at nan ⊢
      exact nan.1
    simp only [Bool.not_eq_false] at nan
    simp [Float64.isInteger, notFinite, nan] at integral
  unfold Float64.magnitude Float64.fitsLong JavaObject.magnitude
  rw [nan]
  cases finite : d.isFinite with
  | false => simp
  | true =>
    cases zero : d.isNegativeZero with
    | true => simp
    | false =>
      simp only [Bool.false_eq_true, if_false, Bool.not_true, Bool.not_false, Bool.true_and,
        Option.some.injEq, Magnitude.exact.injEq, Bool.and_eq_true, decide_eq_true_eq]
      rw [toRat_integer finite integral]
      constructor
      · intro same
        have same' : d.toInt64.toInt = d.truncated := by exact_mod_cast same
        by_contra far
        have least := toInt64_far fun near => far near.2
        rw [least] at same'
        have value : (Int64.minValue).toInt = -0x8000000000000000 := rfl
        omega
      · rintro ⟨low, high⟩
        rw [toInt_toInt64 finite low high]

theorem bigInt_magnitude_iff (n : Int) : (JavaObject.long (.ofInt n)).magnitude = some (.exact n) ↔
    -0x8000000000000000 ≤ n ∧ n < 0x8000000000000000 := by
  simp only [JavaObject.magnitude, Option.some.injEq, Magnitude.exact.injEq]
  constructor
  · intro same
    have same' : (Int64.ofInt n).toInt = n := by exact_mod_cast same
    have low := Int64.minValue_le_toInt (.ofInt n)
    have high := Int64.toInt_lt (.ofInt n)
    have least : (Int64.minValue).toInt = -0x8000000000000000 := rfl
    omega
  · rintro ⟨low, high⟩
    rw [Int64.toInt_ofInt_of_le low high]

/-- The number comes over: toJavaObject answers an object that denotes it. -/
def NumberPreserved (v : JSValue) : Prop :=
  ∀ env thisObj nonJsCallback w trace out w', Exec bridge.meaning
    (toJavaObject env thisObj v nonJsCallback) w trace out w' →
    ∃ o, out = .returned (some o) ∧ o.magnitude = v.magnitude

/-- Where toJavaObject makes its object by one call of `valueOf`, the object decides. -/
theorem preserved_valueOf {v : JSValue} {o : JavaObject}
    (made : ∀ env thisObj nonJsCallback, toJavaObject env thisObj v nonJsCallback =
      askJava (.valueOf env o)) : NumberPreserved v ↔ o.magnitude = v.magnitude := by
  constructor
  · intro preserved
    have run : Exec bridge.meaning (askJava (.valueOf .saved o)) (World.fresh 1 fun _ => [])
        [.prim (.valueOf .saved o) (.javaReturn (some o)) (World.fresh 1 fun _ => [])]
        (.returned (some o)) (World.fresh 1 fun _ => []) := .prim rfl (.ret _ _)
    rw [← made .saved .undefined true] at run
    obtain ⟨o', same, denotes⟩ := preserved _ _ _ _ _ _ _ run
    cases same
    exact denotes
  · intro denotes env thisObj nonJsCallback w trace out w' run
    rw [made] at run
    obtain ⟨a, s, rest, acts, tail, -⟩ := exec_prim run
    cases acts
    obtain ⟨-, rfl, -⟩ := exec_ret tail
    exact ⟨o, rfl, denotes⟩

/-- A number or BigInt crosses unchanged exactly when it is an int32, a double that is not
    integral, or integral within the range of a Long and not negative zero. -/
theorem number_preserved_iff {v : JSValue} (number : v.magnitude.isSome = true) :
    NumberPreserved v ↔ v.crosses = true := by
  cases v with
  | int n =>
    rw [@preserved_valueOf (.int n) (.integer n) fun _ _ _ => rfl]
    exact iff_of_true rfl rfl
  | float64 d =>
    cases integral : d.isInteger with
    | true =>
      have made : ∀ env thisObj nonJsCallback, toJavaObject env thisObj (.float64 d) nonJsCallback =
          askJava (.valueOf env (.long d.toInt64)) := by
        intro env thisObj nonJsCallback
        simp only [toJavaObject, integral, if_true]
      rw [preserved_valueOf made]
      simp only [JSValue.magnitude, JSValue.crosses, integral, Bool.not_true, Bool.false_or]
      exact long_magnitude_iff integral
    | false =>
      have made : ∀ env thisObj nonJsCallback, toJavaObject env thisObj (.float64 d) nonJsCallback =
          askJava (.valueOf env (.double d)) := by
        intro env thisObj nonJsCallback
        simp only [toJavaObject, integral, Bool.false_eq_true, if_false]
      rw [preserved_valueOf made]
      apply iff_of_true rfl
      simp only [JSValue.crosses, integral, Bool.not_false, Bool.true_or]
  | bigInt p n =>
    rw [@preserved_valueOf (.bigInt p n) (.long (.ofInt n)) fun _ _ _ => rfl]
    simp only [JSValue.magnitude, JSValue.crosses, Bool.and_eq_true, decide_eq_true_eq]
    exact bigInt_magnitude_iff n
  | _ => cases number

theorem half_preserved : NumberPreserved (.float64 ⟨0x3FE0000000000000⟩) :=
  (number_preserved_iff rfl).2 (by decide)

/-- Two to the 63 comes over as the least Long. -/
theorem large_double_wrapped : ¬ ∀ v : JSValue, v.magnitude.isSome = true → NumberPreserved v := by
  intro all
  have preserved := all (.float64 ⟨0x43E0000000000000⟩) rfl
  have made : ∀ env thisObj nonJsCallback, toJavaObject env thisObj (.float64 ⟨0x43E0000000000000⟩)
      nonJsCallback = askJava (.valueOf env (.long .minValue)) := fun _ _ _ => rfl
  have same := (preserved_valueOf made).1 preserved
  have integral : Float64.isInteger ⟨0x43E0000000000000⟩ = true := by decide
  have fits := (long_magnitude_iff integral).1 same
  exact absurd fits (by decide)

end Crossing
end QuickJSBridge
