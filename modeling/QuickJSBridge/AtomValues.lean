import QuickJSBridge.TextMarshalling
import QuickJSBridge.AtomKeys

/- The way from JS values to atoms and back, by strings, symbols, numbers and C strings. -/
namespace QuickJSBridge.Atoms
open HashChains

def AtomRuntime.valueKey (rt : AtomRuntime) : KeyValue → Option Key
  | .int n => some (if 0 ≤ n then .index n.toNat else .name (intUnits n))
  | .string p => (rt.entry p).map fun entry => textKey entry.1
  | .symbol p => (rt.entry p).bind fun entry => entry.2.map (entryKey p entry.1)

def hold (held : Addr → Nat) : KeyValue → Addr → Nat
  | .int _ => held
  | .string p => gain held p
  | .symbol p => gain held p

/-- The text of an atom, as `JS_AtomToString` gives it. -/
def AtomRuntime.atomUnits (rt : AtomRuntime) (v : JSAtom) : Option (List UInt16) :=
  if atomIsTaggedInt v then some (decimalUnits (atomToUInt32 v))
  else (rt.slot? v).bind fun p => (rt.entry p).map fun entry => entry.1.units

/-- The type an atom is stored with. -/
def AtomType.stored : AtomType → AtomType
  | .privateName => .symbol
  | t => t

section Conversions
variable {atomEnd : Nat} {held held' : Addr → Nat} {named named' : JSAtom → Nat}
  {rt rt' : AtomRuntime} {i n : Nat} {v : JSAtom} {p q : Addr} {text text' : JSString} {t : AtomType}

/-- `JS_NewSymbol` gives a symbol with this text, which is a new one unless it is global. -/
theorem newSymbol_spec {str : Option Addr} (valid : Valid atomEnd held named rt)
    (holds : ∀ p, str = some p → 0 < held p)
    (known : ∀ p, str = some p → ∃ u, rt.entry p = some (text, u))
    (empty : str = none → text = ⟨true, [], by simp⟩) (roomy : Roomy rt) (type : t ≠ .string)
    (global : t = .globalSymbol → str ≠ none) :
    ∃ q rt' text', jsNewSymbol atomEnd rt str t = some (some (.symbol q), rt') ∧
      Sound (gain (giveUp held str) q) named rt' ∧ Keeps named rt rt' ∧
      rt'.entry q = some (text', some t.stored) ∧ text'.units = text.units ∧
      (t ≠ .globalSymbol → ∀ text' u, rt.entry q ≠ some (text', some u)) := by
  -- the name that was made becomes a value
  have value : ∀ {i rt' q}, jsNewAtom atomEnd rt str t = some (i, rt') → 0 < i →
      atomIsConst atomEnd i = false → Sound (giveUp held str) (acquire atomEnd named i) rt' →
      rt'.slot? i = some q → jsNewSymbol atomEnd rt str t = some (some (.symbol q), rt') ∧
        Sound (gain (giveUp held str) q) named rt' := by
    intro i rt' q makes positive fresh sound slot
    constructor
    · unfold jsNewSymbol
      simp only [makes, Option.bind_eq_bind, Option.bind_some, if_neg (Nat.ne_of_gt positive),
        slot?_eq.1 slot]
    · have named' : acquire atomEnd named i = gain named i := by
        rw [acquire, if_neg (by simp [fresh])]
      rw [named'] at sound
      refine sound_transfer sound slot (fun r other => gain_of_ne _ other)
        (fun j other => (gain_of_ne named other).symm) ?_ ?_
      · rw [gain_self, gain_self]
        omega
      · exact valid.sound.counted.null
  by_cases isGlobal : t = .globalSymbol
  · subst isGlobal
    cases str with
    | none => exact absurd rfl (global rfl)
    | some p =>
      obtain ⟨u, here⟩ := known p rfl
      obtain ⟨i, rt', q, text', makes, positive, sound, keeps, slot, there, units⟩ :=
        newAtom_spec (t := .globalSymbol) valid (holds p rfl) here (fun _ => roomy) (by simp) (by simp)
          fun same => by cases same
      have fresh : atomIsConst atomEnd i = false := by
        rw [← Bool.not_eq_true]
        intro const
        have valid' := valid_next valid sound keeps fun _ below => acquire_const below
        exact valid'.globals i q text' ((slot_const valid' slot).1 const) slot there
      obtain ⟨result, sound'⟩ := value makes positive fresh sound slot
      exact ⟨q, rt', text', result, sound', keeps, there, units, fun other => absurd rfl other⟩
  · obtain ⟨h, same⟩ : ∃ h, jsNewAtom atomEnd rt str t = addAtom rt str h .symbol ∧ t.stored = .symbol := by
      cases t with
      | string => exact absurd rfl type
      | globalSymbol => exact absurd rfl isGlobal
      | symbol => exact ⟨0, rfl, rfl⟩
      | privateName => exact ⟨1, rfl, rfl⟩
    obtain ⟨i, rt', q, adds, positive, fresh, sound, keeps, slot, there, new⟩ :=
      @addAtom_spec atomEnd held named rt text .symbol str h valid holds known empty roomy (by simp)
        (fun other => absurd rfl other) (fun other => absurd rfl other) (fun other => by cases other)
    obtain ⟨result, sound'⟩ := value (same.1.trans adds) positive fresh (by
      rwa [acquire, if_neg (by simp [fresh])]) slot
    exact ⟨q, rt', text, result, sound', keeps, by rw [same.2]; exact there, rfl, fun _ => new⟩

theorem newSymbolFromAtom_spec (valid : Valid atomEnd held named rt) (slot : rt.slot? v = some p)
    (known : ∃ u, rt.entry p = some (text, u)) (roomy : Roomy rt) (type : t ≠ .string) :
    ∃ q rt' text', jsNewSymbolFromAtom atomEnd rt v t = some (some (.symbol q), rt') ∧
      Sound (gain held q) named rt' ∧ Keeps named rt rt' ∧
      rt'.entry q = some (text', some t.stored) ∧ text'.units = text.units ∧
      (t ≠ .globalSymbol → ∀ text' u, rt.entry q ≠ some (text', some u)) := by
  obtain ⟨u, here⟩ := known
  obtain ⟨rt₁, dups, sound₁, keeps₁, entries₁, slots₁, roomy₁⟩ := dupString_spec valid.sound (by
    rw [here]
    exact Option.some_ne_none _)
  have valid₁ := valid_next valid sound₁ keeps₁ fun _ _ => rfl
  obtain ⟨q, rt', text', makes, sound, keeps, there, units, new⟩ := newSymbol_spec valid₁
    (fun r (same : some p = some r) => by
      cases same
      rw [gain_self]
      exact Nat.succ_pos _)
    (fun r same => by
      cases same
      rw [entries₁]
      exact ⟨u, here⟩) (fun none => by cases none) (roomy₁ roomy) type (fun _ => by simp)
  refine ⟨q, rt', text', ?_, ?_, keeps₁.trans valid.sound.interned keeps fun _ used => used, there, units, ?_⟩
  · have inside := valid.sound.interned.inside v p (slot?_eq.1 slot)
    have untagged := slot_untagged valid slot
    unfold jsNewSymbolFromAtom
    simp only [guard, untagged, Bool.not_false, if_true, if_pos inside, Option.pure_def, Option.bind_eq_bind,
      Option.bind_some, slot?_eq.1 slot, dups, makes]
  · rwa [giveUp, lose_gain] at sound
  · rwa [entries₁] at new

theorem valueKey_symbol (here : rt.entry p = some (text, some t)) :
    rt.valueKey (.symbol p) = some (entryKey p text t) := by
  simp [AtomRuntime.valueKey, here]

theorem valueKey_string {u : Option AtomType} (here : rt.entry p = some (text, u)) :
    rt.valueKey (.string p) = some (textKey text) := by
  simp [AtomRuntime.valueKey, here]

theorem textKey_decimal (small : n ≤ atomMaxInt) : textKey (.ofUnits (decimalUnits n)) = .index n := by
  refine textKey_index (isNumString_iff.2 ⟨?_, units_ofUnits _⟩) small
  simp only [atomMaxInt, atomTagInt] at small
  omega

theorem textKey_decimal_large (large : ¬ n ≤ atomMaxInt) (fits : n < 2 ^ 32) :
    textKey (.ofUnits (decimalUnits n)) = .name (decimalUnits n) := by
  rw [textKey_name, units_ofUnits]
  intro m number
  rw [isNumString_iff.2 ⟨fits, units_ofUnits _⟩, Option.some.injEq] at number
  omega

theorem slot_below (sound : Sound held named rt) (slot : rt.slot? i = some p) : p ≠ rt.heapTop := by
  rintro rfl
  obtain ⟨text, t, here, -⟩ := entry_slot sound.interned slot
  rw [(fresh_unheld sound).1] at here
  cases here

theorem newString_meaning (sound : Sound held named rt) {key : Key} (text : JSString)
    (means : rt.meaning v = some key) : (newString rt text).2.meaning v = some key := by
  by_cases tagged : atomIsTaggedInt v
  · rw [AtomRuntime.meaning, if_pos tagged] at means ⊢
    exact means
  · cases slot : rt.slot? v with
    | none => simp [AtomRuntime.meaning, tagged, slot] at means
    | some p =>
      obtain ⟨text', t, here, -⟩ := entry_slot sound.interned slot
      rw [meaning_of tagged slot here] at means
      rw [← means]
      refine meaning_of tagged slot ?_
      rw [← here]
      simp [newString, AtomRuntime.alloc, AtomRuntime.entry, slot_below sound slot]

theorem makes_of_new (valid : Valid atomEnd held named rt) (text : JSString)
    (roomy : RoomFor rt (textKey text)) :
    ∃ v rt', jsNewAtomStr atomEnd (newString rt text).2 (newString rt text).1 = some (v, rt') ∧
      Makes atomEnd held named rt (textKey text) v rt' := by
  obtain ⟨sound₁, keeps₁, here₁, noneNew₁, size₁⟩ := sound_alloc valid.sound text
  have valid₁ := valid_next valid sound₁ keeps₁ fun _ _ => rfl
  have roomy₁ : RoomFor (newString rt text).2 (textKey text) := by
    intro lacks
    rcases roomy (fun v means => lacks v (newString_meaning valid.sound text means)) with room | small
    · exact .inl (noneNew₁.room room)
    · exact .inr (by rwa [size₁])
  obtain ⟨v, rt', makes, made⟩ := newAtomStr_spec valid₁ (by
    rw [gain_self]
    exact Nat.succ_pos _) here₁ roomy₁
  rw [lose_gain] at made
  exact ⟨v, rt', makes, made.sound, keeps₁.trans valid.sound.interned made.keeps fun _ used => used,
    made.other, made.bound, made.means⟩

theorem textKey_negative {m : Int} (negative : ¬ 0 ≤ m) :
    textKey (.ofUnits (intUnits m)) = .name (intUnits m) := by
  have first : intUnits m = 45 :: decimalUnits m.natAbs := by
    rw [intUnits, if_pos (Int.not_le.1 negative)]
  rw [textKey_name, units_ofUnits]
  intro n number
  unfold isNumString at number
  rw [units_ofUnits, first] at number
  split at number <;> cases number

/-- `JS_ValueToAtom` gives the atom of the key that a value means, and leaves the value alone. -/
theorem valueToAtom_spec {w : KeyValue} {key : Key} (valid : Valid atomEnd held named rt)
    (holds : ∀ p, w = .string p ∨ w = .symbol p → 0 < held p) (means : rt.valueKey w = some key)
    (real : ∀ p, w = .symbol p → rt.slot? 0 ≠ some p) (fits : ∀ n, w = .int n → n < 2 ^ 31)
    (roomy : RoomFor rt key) :
    ∃ v rt', jsValueToAtom atomEnd rt w = some (v, rt') ∧ Makes atomEnd held named rt key v rt' := by
  cases w with
  | int m =>
    unfold jsValueToAtom
    simp only [AtomRuntime.valueKey, Option.some.injEq] at means
    by_cases natural : 0 ≤ m
    · rw [if_pos natural] at means
      simp only [if_pos natural]
      have small := fits m rfl
      rw [← means]
      refine ⟨_, rt, rfl, makes_index valid.sound (keeps_same .refl) ?_⟩
      simp only [atomMaxInt, atomTagInt]
      omega
    · rw [if_neg natural] at means
      simp only [if_neg natural]
      rw [← textKey_negative natural] at means
      rw [← means] at roomy ⊢
      exact makes_of_new valid _ roomy
  | string p =>
    have used := holds p (.inl rfl)
    obtain ⟨text, u, here⟩ := held_entry valid.sound used
    rw [valueKey_string here, Option.some.injEq] at means
    obtain ⟨rt₁, dups, sound₁, keeps₁, entries₁, slots₁, roomy₁⟩ := dupString_spec valid.sound (by
      rw [here]
      exact Option.some_ne_none _)
    have valid₁ := valid_next valid sound₁ keeps₁ fun _ _ => rfl
    obtain ⟨v, rt', makes, made⟩ := newAtomStr_spec valid₁ (gain_positive held used)
      (by rw [entries₁]; exact here) (fun lacks => roomy₁ (roomy fun v means' => lacks v (by
        rw [means, ← means']
        simp only [AtomRuntime.meaning, entries₁, slots₁])))
    rw [lose_gain, means] at made
    refine ⟨v, rt', ?_, made.sound, keeps₁.trans valid.sound.interned made.keeps fun _ used => used,
      made.other, made.bound, made.means⟩
    simp only [jsValueToAtom, dups, makes, Option.bind_eq_bind, Option.bind_some]
  | symbol p =>
    have used := holds p (.inr rfl)
    obtain ⟨text, u, here⟩ := held_entry valid.sound used
    obtain ⟨t, rfl⟩ : ∃ t, u = some t := by
      cases u with
      | none => simp [AtomRuntime.valueKey, here] at means
      | some t => exact ⟨t, rfl⟩
    rw [valueKey_symbol here, Option.some.injEq] at means
    obtain ⟨i, slot⟩ := slot_entry valid.sound.interned here
    obtain ⟨rt', dups, sound', keeps, same⟩ := dupAtom_spec valid (.inr (by
      rw [slot]
      exact Option.some_ne_none p))
    refine ⟨i, rt', ?_, sound', keeps, ?_, slot_bound valid slot, ?_⟩
    · simp only [jsValueToAtom, getAtomIndex_eq valid.sound.interned (slot?_eq.1 slot), dups,
        Option.bind_eq_bind, Option.bind_some]
    · refine Nat.pos_of_ne_zero ?_
      rintro rfl
      exact real p rfl slot
    · rw [meaning_of (slot_untagged valid slot) (by rw [slot?_same same]; exact slot)
        (by rw [entry_same same]; exact here), means]

theorem atomToValue_spec {e : JSAtom} {key : Key} (valid : Valid atomEnd held named rt)
    (means : rt.meaning v = some key) :
    ∃ w rt', jsAtomToValue e rt v false = some (w, rt') ∧ Sound (hold held w) named rt' ∧
      Keeps named rt rt' ∧ rt'.valueKey w = some key ∧ (∀ n, w ≠ .int n) ∧
      (0 < v → ∀ p, rt.slot? 0 = some p → hold held w p = held p) := by
  unfold jsAtomToValue
  by_cases tagged : atomIsTaggedInt v
  · rw [if_pos tagged]
    rw [AtomRuntime.meaning, if_pos tagged, Option.some.injEq] at means
    obtain ⟨sound', keeps, here, -, -⟩ := sound_alloc valid.sound (.ofUnits (decimalUnits (atomToUInt32 v)))
    have small : atomToUInt32 v ≤ atomMaxInt := Nat.le_sub_one_of_lt (Nat.mod_lt v (by decide))
    refine ⟨.string rt.heapTop, _, rfl, sound', keeps, (valueKey_string here).trans ?_,
      by simp, fun _ p null => ?_⟩
    · rw [textKey_decimal small, means]
    · exact gain_of_ne held (slot_below valid.sound null)
  · rw [if_neg tagged]
    obtain ⟨p, slot⟩ : ∃ p, rt.slot? v = some p := by
      cases slot : rt.slot? v with
      | none => simp [AtomRuntime.meaning, tagged, slot] at means
      | some p => exact ⟨p, rfl⟩
    obtain ⟨text, t, here, stored⟩ := entry_slot valid.sound.interned slot
    rw [meaning_of tagged slot here, Option.some.injEq] at means
    obtain ⟨s, string, text', type⟩ := string_of here
    obtain ⟨rt', dups, sound', keeps, entries, -, -⟩ := dupString_spec valid.sound (by
      rw [here]
      exact Option.some_ne_none _)
    have inside := valid.sound.interned.inside v p (slot?_eq.1 slot)
    have apart : 0 < v → ∀ q, rt.slot? 0 = some q → gain held p q = held q := by
      rintro positive q null
      refine gain_of_ne held ?_
      rintro rfl
      exact Nat.ne_of_gt positive (slot_unique valid.sound.interned slot null)
    simp only [guard, if_pos inside, Option.pure_def, Option.bind_eq_bind, Option.bind_some,
      slot?_eq.1 slot, string, dups]
    by_cases isString : s.atomType = some .string
    · rw [if_pos isString]
      rw [type, Option.some.injEq] at isString
      refine ⟨.string p, rt', rfl, sound', keeps, ?_, by simp, apart⟩
      -- a string atom is no number that fits
      rw [valueKey_string (by rw [entries]; exact here), ← means, isString, entryKey, textKey_name]
      refine fun n number => valid.sound.interned.numeric v s ?_ (by rw [type, isString]) n (text' ▸ number)
      rw [atom?_of (slot?_eq.1 slot), string]
    · rw [if_neg isString]
      simp only [Bool.false_eq_true, if_false]
      exact ⟨.symbol p, rt', rfl, sound', keeps, by
        rw [valueKey_symbol (by rw [entries]; exact here), means], by simp, apart⟩

/-- `JS_AtomToString` gives the text of the atom, also for a symbol. -/
theorem atomToString_spec {e : JSAtom} {units : List UInt16} (valid : Valid atomEnd held named rt)
    (text : rt.atomUnits v = some units) (empty : rt.meaning e = some (.name [])) :
    ∃ p rt' text, jsAtomToValue e rt v true = some (.string p, rt') ∧
      Sound (gain held p) named rt' ∧ Keeps named rt rt' ∧ rt'.entry p = some text ∧ text.1.units = units ∧
      (0 < v → 0 < e → ∀ q, rt.slot? 0 = some q → gain held p q = held q) := by
  unfold jsAtomToValue
  by_cases tagged : atomIsTaggedInt v
  · rw [if_pos tagged]
    rw [AtomRuntime.atomUnits, if_pos tagged, Option.some.injEq] at text
    obtain ⟨sound', keeps, here, -, -⟩ := sound_alloc valid.sound (.ofUnits (decimalUnits (atomToUInt32 v)))
    exact ⟨rt.heapTop, _, _, rfl, sound', keeps, here, (units_ofUnits _).trans text, fun _ _ q null =>
      gain_of_ne held (slot_below valid.sound null)⟩
  · rw [if_neg tagged]
    obtain ⟨p, slot⟩ : ∃ p, rt.slot? v = some p := by
      cases slot : rt.slot? v with
      | none => simp [AtomRuntime.atomUnits, tagged, slot] at text
      | some p => exact ⟨p, rfl⟩
    obtain ⟨text₀, t, here, stored⟩ := entry_slot valid.sound.interned slot
    rw [AtomRuntime.atomUnits, if_neg tagged, slot, Option.bind_some, here, Option.map_some,
      Option.some.injEq] at text
    obtain ⟨s, string, text', type⟩ := string_of here
    have inside := valid.sound.interned.inside v p (slot?_eq.1 slot)
    -- whichever string it is, the value holds it
    have holds : ∀ {q j text₁ u}, rt.slot? j = some q → (0 < v → 0 < e → 0 < j) →
        rt.entry q = some (text₁, u) → text₁.units = units →
        ∃ p rt' text, (jsDupString rt q).bind (fun rt' => some (KeyValue.string q, rt')) =
          some (.string p, rt') ∧ Sound (gain held p) named rt' ∧ Keeps named rt rt' ∧
          rt'.entry p = some text ∧ text.1.units = units ∧
          (0 < v → 0 < e → ∀ q, rt.slot? 0 = some q → gain held p q = held q) := by
      intro q j text₁ u mine other there same
      obtain ⟨rt', dups, sound', keeps, entries, -, -⟩ := dupString_spec valid.sound (by
        rw [there]
        exact Option.some_ne_none _)
      refine ⟨q, rt', _, by rw [dups, Option.bind_some], sound', keeps, by rw [entries]; exact there, same,
        fun first second r null => gain_of_ne held ?_⟩
      rintro rfl
      exact Nat.ne_of_gt (other first second) (slot_unique valid.sound.interned mine null)
    simp only [guard, if_pos inside, Option.pure_def, Option.bind_eq_bind, Option.bind_some,
      slot?_eq.1 slot, string, if_true]
    by_cases isString : s.atomType = some .string
    · rw [if_pos isString]
      exact holds slot (fun first _ => first) here text
    · rw [if_neg isString]
      by_cases none : s.text.units.length = 0 ∧ s.text.isWide = true
      · rw [if_pos none]
        have untagged : ¬ atomIsTaggedInt e := by
          intro tagged
          rw [AtomRuntime.meaning, if_pos tagged] at empty
          cases empty
        obtain ⟨q, mine⟩ : ∃ q, rt.slot? e = some q := by
          cases mine : rt.slot? e with
          | none => simp [AtomRuntime.meaning, untagged, mine] at empty
          | some q => exact ⟨q, rfl⟩
        obtain ⟨text₁, u, there, -⟩ := entry_slot valid.sound.interned mine
        rw [meaning_of untagged mine there, Option.some.injEq] at empty
        have blank : text₁.units = [] := by
          cases u <;> simp [entryKey] at empty
          exact empty
        rw [slot?_eq.1 mine]
        refine holds mine (fun _ second => second) there ?_
        rw [blank, ← text, ← text', List.length_eq_zero_iff.1 none.1]
      · rw [if_neg none, slot?_eq.1 slot]
        exact holds slot (fun first _ => first) here text

/-- `JS_NewAtomUInt32` gives the atom of the key of a number's text. -/
theorem newAtomUInt32_spec (valid : Valid atomEnd held named rt) (roomy : Roomy rt) (fits : n < 2 ^ 32) :
    ∃ v rt', jsNewAtomUInt32 atomEnd rt n = some (v, rt') ∧
      Makes atomEnd held named rt (textKey (.ofUnits (decimalUnits n))) v rt' := by
  unfold jsNewAtomUInt32
  by_cases small : n ≤ atomMaxInt
  · rw [if_pos small, textKey_decimal small]
    exact ⟨_, rt, rfl, makes_index valid.sound (keeps_same .refl) small⟩
  · rw [if_neg small]
    obtain ⟨v, rt', makes, made⟩ := makes_of_new valid (.ofUnits (decimalUnits n)) fun _ => roomy
    refine ⟨v, rt', ?_, made⟩
    have number : isNumString (.ofUnits (decimalUnits n)) = some n := isNumString_iff.2 ⟨fits, units_ofUnits _⟩
    have string : (newString rt (.ofUnits (decimalUnits n))).2.strings
        (newString rt (.ofUnits (decimalUnits n))).1 = some ⟨1, .ofUnits (decimalUnits n), 0, none, 0⟩ := by
      simp [newString, AtomRuntime.alloc]
    unfold jsNewAtomStr at makes
    simpa only [string, number, small, if_false, Option.bind_eq_bind, Option.bind_some] using makes

/-- `JS_AtomIsArrayIndex` knows the atoms of the decimal texts of the numbers below 2^32 - 1. -/
theorem isArrayIndex_spec {key : Key} (valid : Valid atomEnd held named rt) (means : rt.meaning v = some key) :
    ∃ index, jsAtomIsArrayIndex rt v = some index ∧ ∀ n, index = some n ↔
      n < 2 ^ 32 - 1 ∧ key = textKey (.ofUnits (decimalUnits n)) := by
  unfold jsAtomIsArrayIndex
  by_cases tagged : atomIsTaggedInt v
  · rw [if_pos tagged]
    rw [AtomRuntime.meaning, if_pos tagged, Option.some.injEq] at means
    have small : atomToUInt32 v < 2 ^ 31 := Nat.mod_lt v (by decide)
    have within : atomToUInt32 v ≤ atomMaxInt := Nat.le_sub_one_of_lt small
    refine ⟨_, rfl, fun n => ?_⟩
    rw [Option.some.injEq, ← means]
    constructor
    · rintro rfl
      exact ⟨by omega, (textKey_decimal within).symm⟩
    · rintro ⟨fits, same⟩
      by_cases below : n ≤ atomMaxInt
      · rw [textKey_decimal below] at same
        exact Key.index.inj same
      · rw [textKey_decimal_large below (by omega)] at same
        cases same
  · rw [if_neg tagged]
    obtain ⟨p, slot⟩ : ∃ p, rt.slot? v = some p := by
      cases slot : rt.slot? v with
      | none => simp [AtomRuntime.meaning, tagged, slot] at means
      | some p => exact ⟨p, rfl⟩
    obtain ⟨text, t, here, stored⟩ := entry_slot valid.sound.interned slot
    obtain ⟨s, string, rfl, type⟩ := string_of here
    rw [meaning_of tagged slot here, Option.some.injEq] at means
    have atom : rt.atom? v = some s := by rw [atom?_of (slot?_eq.1 slot), string]
    have inside := valid.sound.interned.inside v p (slot?_eq.1 slot)
    simp only [guard, if_pos inside, Option.pure_def, Option.bind_eq_bind, Option.bind_some, atom, type]
    refine ⟨_, rfl, fun n => ?_⟩
    rw [← means]
    by_cases isString : t = .string
    · subst isString
      have large := valid.sound.interned.numeric v s atom type
      rw [if_pos rfl, Option.filter_eq_some_iff, entryKey]
      constructor
      · rintro ⟨number, other⟩
        obtain ⟨fits, units⟩ := isNumString_iff.1 number
        have above := large n number
        refine ⟨?_, ?_⟩
        · simp only [ne_eq, decide_not, Bool.not_eq_true', decide_eq_false_iff_not] at other
          omega
        · rw [textKey_decimal_large (Nat.not_le.2 above) fits, units]
      · rintro ⟨fits, same⟩
        by_cases below : n ≤ atomMaxInt
        · rw [textKey_decimal below] at same
          cases same
        · rw [textKey_decimal_large below (by omega)] at same
          refine ⟨isNumString_iff.2 ⟨by omega, Key.name.inj same⟩, ?_⟩
          simp only [ne_eq, decide_not, Bool.not_eq_true', decide_eq_false_iff_not]
          omega
    · rw [if_neg (by simpa using isString)]
      constructor
      · intro none
        cases none
      · rintro ⟨fits, same⟩
        by_cases below : n ≤ atomMaxInt
        · rw [textKey_decimal below] at same
          cases t <;> simp [entryKey] at same isString
        · rw [textKey_decimal_large below (by omega)] at same
          cases t <;> simp [entryKey] at same isString

/-- `__JS_FindAtom` finds the atom of the narrow string whose units are the bytes. -/
theorem findAtom_spec (valid : Valid atomEnd held named rt) (str : List UInt8) :
    (∃ i p text rt', jsFindAtom atomEnd rt str = some (i, rt') ∧ rt.entry p = some (text, some .string) ∧
      text.isWide = false ∧ text.units = byteUnits str ∧
      Makes atomEnd held named rt (.name (byteUnits str)) i rt') ∨
    (jsFindAtom atomEnd rt str = some (0, rt) ∧ ∀ p text, rt.entry p = some (text, some .string) →
      text.isWide = false → text.units ≠ byteUnits str) := by
  have inv := valid.sound.interned
  obtain ⟨h, hash⟩ : ∃ h, h = (byteUnits str).foldl (fun h c => (h * 263 + c.toNat) % 2 ^ 32)
    AtomType.string.number &&& atomHashMask := ⟨_, rfl⟩
  obtain ⟨found, sought⟩ : ∃ found : Nat → Bool, found = fun i => rt.isAtom h .string (byteUnits str) i &&
    ((rt.atom? i).map fun p => !p.text.isWide).getD false := ⟨_, rfl⟩
  obtain ⟨r, walked, hits, misses⟩ := walk_filed inv.filed found
    (fun j hashed => (hashed_inside inv hashed).1) (Nat.le_of_eq (List.length_range ..))
    (h &&& (rt.atomHashSize - 1))
  have finds : ∀ i, found i = true ↔ ∃ s, rt.atom? i = some s ∧ s.hash = h ∧
      s.atomType = some .string ∧ s.text.units = byteUnits str ∧ s.text.isWide = false := by
    intro i
    rw [sought, Bool.and_eq_true, isAtom_eq]
    cases rt.atom? i with
    | none => simp
    | some s => simp [and_assoc]
  have start : walk rt.next found rt.atomSize (link (rt.atomHash (h &&& (rt.atomHashSize - 1)))) =
      some r := walked
  unfold jsFindAtom
  rw [← hash]
  dsimp only
  rw [← sought]
  simp only [start, Option.bind_eq_bind, Option.bind_some]
  cases r with
  | none =>
    refine .inr ⟨rfl, fun p text here narrow units => ?_⟩
    obtain ⟨i, slot⟩ := slot_entry inv here
    obtain ⟨s, string, rfl, type⟩ := string_of here
    have atom : rt.atom? i = some s := by rw [atom?_of (slot?_eq.1 slot), string]
    have hash' : s.hash = h := by
      rw [inv.hashes i s .string atom type (by simp), hashString, units, hash]
    have missed := misses rfl i ⟨s, atom, by simp [type]⟩ (by rw [bucketOf_of atom, hash'])
    rw [(finds i).2 ⟨s, atom, hash', type, units, narrow⟩] at missed
    cases missed
  | some i =>
    obtain ⟨hashed, -, hit⟩ := hits i rfl
    obtain ⟨s, atom, -, type, units, narrow⟩ := (finds i).1 hit
    obtain ⟨p, slot, string⟩ := slot_of atom
    have slot' := slot?_eq.2 slot
    have here : rt.entry p = some (s.text, some .string) := by rw [entry_of string, type]
    obtain ⟨rt', dups, sound', keeps, same⟩ := dupAtom_spec valid (.inr (by
      rw [slot']
      exact Option.some_ne_none p))
    refine .inl ⟨i, p, s.text, rt', ?_, here, narrow, units, sound', keeps, (hashed_inside inv hashed).2,
      slot_bound valid slot', ?_⟩
    · simp only [dups, Option.bind_some]
    · rw [meaning_of (slot_untagged valid slot') (by rw [slot?_same same]; exact slot')
        (by rw [entry_same same]; exact here), entryKey, units]

theorem utf8Tail_length {l c c' : Nat} {bytes next : List UInt8} (read : utf8Tail l c bytes = some (c', next)) :
    next.length + l = bytes.length ∧ c' < (c + 1) * 64 ^ l := by
  induction l generalizing c bytes with
  | zero =>
    simp only [utf8Tail, Option.some.injEq, Prod.mk.injEq] at read
    obtain ⟨rfl, rfl⟩ := read
    simp
  | succ l ih =>
    cases bytes with
    | nil => simp [utf8Tail] at read
    | cons b rest =>
      rw [utf8Tail] at read
      split at read
      · cases read
      · obtain ⟨shorter, bound⟩ := ih read
        have part : b.toNat % 64 < 64 := Nat.mod_lt _ (by decide)
        refine ⟨by rw [List.length_cons]; omega, Nat.lt_of_lt_of_le bound ?_⟩
        rw [Nat.pow_succ', ← Nat.mul_assoc]
        exact Nat.mul_le_mul_right _ (by omega)

theorem unicodeFromUtf8_shrinks {a : UInt8} {bytes next : List UInt8} {c : Nat} (wide : ¬ a.toNat < 0x80)
    (read : unicodeFromUtf8 (a :: bytes) = some (c, next)) :
    next.length + 1 ≤ bytes.length ∧ (0x10000 ≤ c → next.length + 3 ≤ bytes.length) := by
  simp only [unicodeFromUtf8, if_neg wide] at read
  cases head : utf8Head a.toNat with
  | none => simp [head] at read
  | some shape =>
    obtain ⟨l, first, least⟩ := shape
    simp only [head] at read
    cases tail : utf8Tail l first bytes with
    | none => simp [tail] at read
    | some result =>
      obtain ⟨c', next'⟩ := result
      simp only [tail] at read
      split at read
      · cases read
      · simp only [Option.some.injEq, Prod.mk.injEq] at read
        obtain ⟨rfl, rfl⟩ := read
        obtain ⟨shorter, bound⟩ := utf8Tail_length tail
        -- two and three bytes give one unit
        have lengths : 1 ≤ l ∧ (l = 1 → first < 32) ∧ (l = 2 → first < 16) := by
          unfold utf8Head at head
          split at head
          · cases head
          · repeat' split at head
            all_goals cases head
            all_goals omega
        refine ⟨by omega, fun large => ?_⟩
        by_contra short
        rcases (show l = 1 ∨ l = 2 by omega) with one | two
        · subst one
          have small := lengths.2.1 rfl
          omega
        · subst two
          have small := lengths.2.2 rfl
          omega

theorem skipInvalid_length (a : UInt8) (bytes : List UInt8) :
    (skipInvalid (a :: bytes)).length ≤ bytes.length := by
  have drop : ∀ bytes : List UInt8, (bytes.dropWhile ModifiedUtf8.isContinuation).length ≤ bytes.length :=
    fun bytes => List.length_dropWhile_le ..
  unfold skipInvalid
  cases kept : (a :: bytes).dropWhile ModifiedUtf8.isContinuation with
  | nil => exact Nat.zero_le _
  | cons b rest =>
    have first := drop (a :: bytes)
    rw [kept, List.length_cons, List.length_cons] at first
    exact Nat.le_trans (drop rest) (by omega)

theorem utf8Units_length (fuel : Nat) (bytes : List UInt8) :
    (utf8Units fuel bytes).length ≤ bytes.length := by
  induction fuel generalizing bytes with
  | zero => exact Nat.zero_le _
  | succ fuel ih =>
    cases bytes with
    | nil => exact Nat.zero_le _
    | cons a rest =>
      rw [utf8Units]
      split
      · exact Nat.succ_le_succ (ih rest)
      · next wide =>
        have invalid := Nat.le_trans (ih (skipInvalid (a :: rest))) (skipInvalid_length a rest)
        split
        · exact Nat.succ_le_succ invalid
        · next c next read =>
          obtain ⟨shorter, more⟩ := unicodeFromUtf8_shrinks wide read
          have left := ih next
          split
          · rw [List.length_cons, List.length_cons]
            omega
          · split
            · have bound := more (by omega)
              rw [List.length_cons, List.length_cons, List.length_cons]
              omega
            · exact Nat.succ_le_succ invalid

theorem utf8Units_bytes (fuel : Nat) (bytes : List UInt8) (same : utf8Units fuel bytes = byteUnits bytes) :
    ∀ b ∈ bytes, b.toNat < 128 := by
  induction fuel generalizing bytes with
  | zero =>
    cases bytes with
    | nil => simp
    | cons a rest => simp [utf8Units, byteUnits] at same
  | succ fuel ih =>
    cases bytes with
    | nil => simp
    | cons a rest =>
      have lengths := congrArg List.length same
      rw [byteUnits, List.length_map, List.length_cons] at lengths
      have head : (byteUnits (a :: rest)) = .ofNat a.toNat :: byteUnits rest := rfl
      have small : (UInt16.ofNat a.toNat).toNat < 256 := by
        rw [UInt16.toNat_ofNat']
        have byte := a.toNat_lt
        omega
      rw [utf8Units] at same lengths
      rw [head] at same
      split at same
      · next ascii =>
        rw [List.cons.injEq] at same
        intro b there
        rcases List.mem_cons.1 there with rfl | there
        · exact ascii
        · exact ih rest same.2 b there
      · next wide =>
        have replaced : ∀ units, ¬ (0xFFFD : UInt16) :: units = .ofNat a.toNat :: byteUnits rest := by
          intro units equal
          rw [← (List.cons.inj equal).1] at small
          exact absurd small (by decide)
        rw [if_neg wide] at lengths
        split at same
        · exact absurd same (replaced _)
        · next c next read =>
          obtain ⟨shorter, more⟩ := unicodeFromUtf8_shrinks wide read
          have left := utf8Units_length fuel next
          simp only [read] at lengths
          split at same
          · next low =>
            rw [if_pos low, List.length_cons] at lengths
            omega
          · next high =>
            rw [if_neg high] at lengths
            split at same
            · next fits =>
              have bound := more (by omega)
              rw [if_pos fits, List.length_cons, List.length_cons] at lengths
              omega
            · exact absurd same (replaced _)

theorem newStringLen_units {str : List UInt8} (decoded : newStringLen str = some text) :
    text.units = byteUnits str ↔ ∀ b ∈ str, b.toNat < 128 := by
  unfold newStringLen at decoded
  split at decoded
  · cases decoded
  · split at decoded
    · next ascii =>
      rw [Option.some.injEq] at decoded
      rw [← decoded, units_ofUnits]
      exact ⟨fun _ => (asciiLength_eq_iff str).1 ascii, fun _ => rfl⟩
    · next other =>
      have wide : ¬ ∀ b ∈ str, b.toNat < 128 := fun all => other ((asciiLength_eq_iff str).2 all)
      split at decoded
      · cases decoded
      · simp only at decoded
        split at decoded
        · cases decoded
        · rw [Option.some.injEq] at decoded
          rw [← decoded, units_ofUnits]
          exact ⟨utf8Units_bytes str.length str, fun all => absurd all wide⟩

theorem textKey_other {c : UInt16} {rest : List UInt16} (units : text.units = c :: rest)
    (other : isNum c = none) : textKey text = .name text.units := by
  refine textKey_name fun n number => ?_
  unfold isNumString at number
  split at number
  · cases number
  · split at number
    · cases number
    · next first _ same =>
      rw [units, List.cons.injEq] at same
      rw [← same.1, other] at number
      cases number

/-- Where a C string starts with a digit, `JS_NewAtomLen` does not look for its bytes. -/
def StartsWithDigit (str : List UInt8) : Prop := (str.head?.map isDigit).getD false = true

/-- `JS_NewAtomLen` gives the atom of the decoded text just where the bytes are not the units of
    another narrow string that is an atom already. -/
theorem newAtomLen_spec {str : List UInt8} (valid : Valid atomEnd held named rt) (roomy : Roomy rt)
    (decoded : newStringLen str = some text) :
    ∃ v rt' key, jsNewAtomLen atomEnd rt str = some (v, rt') ∧ Makes atomEnd held named rt key v rt' ∧
      (key = textKey text ↔ StartsWithDigit str ∨ (∀ b ∈ str, b.toNat < 128) ∨
        ∀ p text', rt.entry p = some (text', some .string) → text'.isWide = false →
          text'.units ≠ byteUnits str) := by
  have new : findAtomLen atomEnd rt str = some (0, rt) → ∃ v rt',
      jsNewAtomLen atomEnd rt str = some (v, rt') ∧ Makes atomEnd held named rt (textKey text) v rt' := by
    intro missed
    obtain ⟨v, rt', makes, made⟩ := makes_of_new valid text fun _ => roomy
    refine ⟨v, rt', ?_, made⟩
    unfold jsNewAtomLen
    simp only [missed, Option.bind_eq_bind, Option.bind_some, ne_eq, not_true_eq_false, if_false, decoded]
    exact makes
  unfold findAtomLen at new
  by_cases digit : StartsWithDigit str
  · rw [StartsWithDigit] at digit
    rw [if_pos digit] at new
    obtain ⟨v, rt', makes, made⟩ := new rfl
    exact ⟨v, rt', _, makes, made, by simp [StartsWithDigit, digit]⟩
  · have other : ¬ (str.head?.map isDigit).getD false = true := digit
    rw [if_neg other] at new
    rcases findAtom_spec valid str with ⟨i, p, text', rt', finds, here, narrow, units, made⟩ | ⟨missed, none⟩
    · refine ⟨i, rt', _, ?_, made, ?_⟩
      · unfold jsNewAtomLen findAtomLen
        simp only [if_neg other, finds, Option.bind_eq_bind, Option.bind_some, ne_eq,
          Nat.ne_of_gt made.other, not_false_eq_true, if_true]
      · constructor
        · intro same
          refine .inr (.inl ((newStringLen_units decoded).1 ?_))
          unfold textKey at same
          cases number : (isNumString text).filter (· ≤ atomMaxInt) with
          | none =>
            rw [number] at same
            exact (Key.name.inj same).symm
          | some n =>
            rw [number] at same
            cases same
        · rintro (start | ascii | missing)
          · exact absurd start digit
          · have same := (newStringLen_units decoded).2 ascii
            rw [← same]
            cases str with
            | nil =>
              have empty : text.units = [] := same
              rw [textKey_name fun n number => ?_]
              unfold isNumString at number
              simp [empty] at number
            | cons b rest =>
              refine (textKey_other same ?_).symm
              have notDigit : isDigit b = false := by simpa using other
              have byte := b.toNat_lt
              simp only [isDigit, Bool.and_eq_false_iff, decide_eq_false_iff_not] at notDigit
              rw [isNum, if_neg]
              rw [UInt16.toNat_ofNat']
              omega
          · exact absurd units (missing p text' here narrow)
    · rw [missed] at new
      obtain ⟨v, rt', makes, made⟩ := new rfl
      exact ⟨v, rt', _, makes, made, by simp only [true_iff]; exact .inr (.inr none)⟩

end Conversions
end QuickJSBridge.Atoms
