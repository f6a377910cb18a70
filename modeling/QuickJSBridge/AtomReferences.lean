import QuickJSBridge.AtomInterning

/- Who holds the strings of the atom table: JS values hold strings, names hold slots, and the
   predefined atoms hold themselves. What each operation does to the table and to these counts. -/
namespace QuickJSBridge.Atoms
open HashChains

/-- Every string counts the values and the names that hold it. A predefined atom holds itself,
    and a number that is an atom holds nothing. -/
structure Counted (held : Addr → Nat) (named : JSAtom → Nat) (rt : AtomRuntime) : Prop where
  atoms : ∀ i p, rt.slot? i = some p → rt.count p = held p + named i
  plain : ∀ p text, rt.entry p = some (text, none) → rt.count p = held p
  positive : ∀ p, rt.entry p ≠ none → 0 < rt.count p
  holds : ∀ p, 0 < held p → rt.entry p ≠ none
  names : ∀ i, 0 < i → 0 < named i → rt.slot? i ≠ none
  null : named 0 = 1

structure Sound (held : Addr → Nat) (named : JSAtom → Nat) (rt : AtomRuntime) : Prop where
  interned : Interned rt
  counted : Counted held named rt

/-- A slot that is named keeps its string, and a string keeps its text or is freed. -/
structure Keeps (named : JSAtom → Nat) (rt rt' : AtomRuntime) : Prop where
  slots : ∀ i p, rt.slot? i = some p → 0 < named i → rt'.slot? i = some p
  texts : ∀ p text t, rt.entry p = some (text, t) → rt'.entry p = none ∨
    ∃ t', rt'.entry p = some (text, t') ∧ (t ≠ none → t' = t)
  heapTop : rt.heapTop ≤ rt'.heapTop
  gone : ∀ p, p < rt.heapTop → rt.entry p = none → rt'.entry p = none
  atomSize : rt.atomSize ≤ atomMax → rt'.atomSize ≤ atomMax

structure NoneNew (rt rt' : AtomRuntime) : Prop where
  entries : ∀ q text t, rt'.entry q = some (text, some t) → t ≠ .symbol →
    rt.entry q = some (text, some t)
  slots : ∀ i, 0 < i → rt'.slot? i ≠ none → rt.slot? i ≠ none
  room : rt.atomFreeIndex ≠ 0 → rt'.atomFreeIndex ≠ 0
  plain : ∀ p text, rt.entry p = some (text, none) → rt'.entry p = none ∨ rt'.entry p = some (text, none)

section Steps
variable {held : Addr → Nat} {named named' : JSAtom → Nat} {rt rt' : AtomRuntime}
  {i j n : Nat} {p q : Addr} {s : StringStruct} {text : JSString}

def gain (counts : Nat → Nat) (i : Nat) : Nat → Nat := Function.update counts i (counts i + 1)
def lose (counts : Nat → Nat) (i : Nat) : Nat → Nat := Function.update counts i (counts i - 1)

theorem entry_slot (inv : Interned rt) (slot : rt.slot? i = some p) :
    ∃ text t, rt.entry p = some (text, some t) ∧ t ≠ .privateName := by
  obtain ⟨s, t, here, type, stored⟩ := inv.there i p (slot?_eq.1 slot)
  exact ⟨s.text, t, by rw [entry_of here, type], stored⟩

theorem slot_entry {t : AtomType} (inv : Interned rt) (here : rt.entry p = some (text, some t)) :
    ∃ i, rt.slot? i = some p := by
  obtain ⟨s, there, -, type⟩ := string_of here
  obtain ⟨i, slot⟩ := inv.slotted p s there (by rw [type]; exact Option.some_ne_none t)
  exact ⟨i, slot?_eq.2 slot⟩

theorem recount_same (inv : Interned rt) (here : rt.strings p = some s) (n : Nat) :
    Interned (rt.set p (some { s with refCount := n })) ∧
      SameAtoms rt (rt.set p (some { s with refCount := n })) ∧
      (rt.set p (some { s with refCount := n })).count = Function.update rt.count p n := by
  obtain ⟨rt', made⟩ : ∃ rt', rt' = rt.set p (some { s with refCount := n }) := ⟨_, rfl⟩
  rw [← made]
  have strings : ∀ q, rt'.strings q = if q = p then some { s with refCount := n } else rt.strings q := by
    intro q
    rw [made]
    by_cases equal : q = p
    · subst equal
      simp
    · simp [equal]
  have slots : rt'.atomArray = rt.atomArray := by rw [made]; rfl
  have atoms : ∀ j r, rt.atom? j = some r → ∃ r', rt'.atom? j = some r' ∧
      r'.core = r.core ∧ r'.hashNext = r.hashNext := by
    intro j r there
    obtain ⟨q, slot, known⟩ := slot_of there
    rw [atom?_of (by rw [slots, slot]), strings]
    split
    · next equal =>
      subst equal
      rw [here] at known
      cases known
      exact ⟨_, rfl, rfl, rfl⟩
    · exact ⟨r, known, rfl, rfl⟩
  have same : SameAtoms rt rt' := by
    refine ⟨slots, by rw [made]; rfl, by rw [made]; rfl, by rw [made]; rfl, by rw [made]; rfl,
      fun q => ?_, fun j r there _ => ?_⟩
    · rw [strings]
      split
      · next equal =>
        subst equal
        rw [here]
        rfl
      · rfl
    · obtain ⟨r', known, -, place⟩ := atoms j r there
      exact ⟨r', known, place⟩
  refine ⟨interned_of_same inv same ?_ (by rw [made]; exact inv.power), same, ?_⟩
  · refine filed_of_same inv.filed (fun b => by rw [made]; rfl) (fun j hashed => ?_)
      (fun j => same_hashed same) fun j hashed => ?_
    · obtain ⟨r, there, -⟩ := hashed
      obtain ⟨r', known, -, place⟩ := atoms j r there
      show rt'.next j = rt.next j
      rw [next_of known, next_of there, place]
    · obtain ⟨r, there, -⟩ := hashed
      obtain ⟨r', known, core, -⟩ := atoms j r there
      rw [bucketOf_of known, bucketOf_of there, (core_fields core).2.1, made]
      rfl
  · funext q
    rw [AtomRuntime.count, strings]
    by_cases equal : q = p
    · subst equal
      simp
    · simp [equal, AtomRuntime.count]

theorem keeps_same (same : SameAtoms rt rt') : Keeps named rt rt' := by
  refine ⟨fun i p slot _ => ?_, fun p text t here => .inr ⟨t, ?_, fun _ => rfl⟩,
    Nat.le_of_eq same.heapTop.symm, fun p _ none => ?_, same.atomSize ▸ id⟩
  · rw [slot?_same same, slot]
  · rw [entry_same same, here]
  · rw [entry_same same, none]

theorem Keeps.trans {rt'' : AtomRuntime} (inv : Interned rt) (first : Keeps named rt rt')
    (second : Keeps named' rt' rt'') (still : ∀ i, 0 < named i → 0 < named' i) :
    Keeps named rt rt'' := by
  refine ⟨fun i p slot positive => ?_, fun p text t here => ?_,
    Nat.le_trans first.heapTop second.heapTop, fun p inside none => ?_,
    fun bounded => second.atomSize (first.atomSize bounded)⟩
  · exact second.slots i p (first.slots i p slot positive) (still i positive)
  · have inside := inv.below p fun none => by
      rw [entry_none.2 none] at here
      cases here
    rcases first.texts p text t here with freed | ⟨t', here', type⟩
    · exact .inl (second.gone p (Nat.lt_of_lt_of_le inside first.heapTop) freed)
    · rcases second.texts p text t' here' with freed | ⟨t'', here'', type'⟩
      · exact .inl freed
      · refine .inr ⟨t'', here'', fun isAtom => ?_⟩
        have equal := type isAtom
        subst equal
        exact type' isAtom
  · exact second.gone p (Nat.lt_of_lt_of_le inside first.heapTop) (first.gone p inside none)

theorem slot_unique (inv : Interned rt) (first : rt.slot? i = some p) (second : rt.slot? j = some p) :
    i = j :=
  inv.apart i j p (slot?_eq.1 first) (slot?_eq.1 second)

theorem sound_recount {held' : Addr → Nat} (sound : Sound held named rt) (here : rt.strings p = some s)
    (positive : 0 < n) (others : ∀ q, q ≠ p → held' q = held q)
    (names : ∀ i, rt.slot? i ≠ some p → named' i = named i)
    (atom : ∀ i, rt.slot? i = some p → n = held' p + named' i)
    (plain : ∀ text, rt.entry p = some (text, none) → n = held' p) (null : named' 0 = 1) :
    Sound held' named' (rt.set p (some { s with refCount := n })) ∧
      Keeps named rt (rt.set p (some { s with refCount := n })) := by
  obtain ⟨inv, same, counts⟩ := recount_same sound.interned here n
  refine ⟨⟨inv, ?_⟩, keeps_same same⟩
  have known : rt.entry p ≠ none := by
    rw [entry_of here]
    exact Option.some_ne_none _
  refine ⟨fun i q slot => ?_, fun q text there => ?_, fun q there => ?_, fun q holds => ?_,
    fun i positive holds => ?_, null⟩
  · rw [slot?_same same] at slot
    rw [counts]
    by_cases equal : q = p
    · subst equal
      rw [Function.update_self]
      exact atom i slot
    · rw [Function.update_of_ne equal, others q equal, names i (by
        rw [slot]
        simpa using equal)]
      exact sound.counted.atoms i q slot
  · rw [entry_same same] at there
    rw [counts]
    by_cases equal : q = p
    · subst equal
      rw [Function.update_self]
      exact plain text there
    · rw [Function.update_of_ne equal, others q equal]
      exact sound.counted.plain q text there
  · rw [entry_same same] at there
    rw [counts]
    by_cases equal : q = p
    · subst equal
      rw [Function.update_self]
      exact positive
    · rw [Function.update_of_ne equal]
      exact sound.counted.positive q there
  · rw [entry_same same]
    by_cases equal : q = p
    · rw [equal]
      exact known
    · rw [others q equal] at holds
      exact sound.counted.holds q holds
  · rw [slot?_same same]
    by_cases mine : rt.slot? i = some p
    · rw [mine]
      exact Option.some_ne_none p
    · rw [names i mine] at holds
      exact sound.counted.names i positive holds

theorem sound_alloc (sound : Sound held named rt) (text : JSString) :
    Sound (gain held rt.heapTop) named (newString rt text).2 ∧
      Keeps named rt (newString rt text).2 ∧
      (newString rt text).2.entry rt.heapTop = some (text, none) ∧
      NoneNew rt (newString rt text).2 ∧ (newString rt text).2.atomSize = rt.atomSize := by
  obtain ⟨rt', made⟩ : ∃ rt', rt' = (newString rt text).2 := ⟨_, rfl⟩
  rw [← made]
  have inv := sound.interned
  have unused : rt.strings rt.heapTop = none := by
    by_contra there
    exact Nat.lt_irrefl _ (inv.below _ there)
  have strings : ∀ q, rt'.strings q =
      if q = rt.heapTop then some ⟨1, text, 0, none, 0⟩ else rt.strings q := by
    intro q
    rw [made]
    by_cases equal : q = rt.heapTop
    · subst equal
      simp [newString, AtomRuntime.alloc]
    · simp [newString, AtomRuntime.alloc, equal]
  have slots : rt'.atomArray = rt.atomArray := by rw [made]; rfl
  have slot? : rt'.slot? = rt.slot? := by
    funext i
    rw [AtomRuntime.slot?, slots, AtomRuntime.slot?]
  have apart : ∀ i p, rt.atomArray i = .atom p → p ≠ rt.heapTop := by
    rintro i p slot rfl
    obtain ⟨s, t, here, -⟩ := inv.there i _ slot
    rw [unused] at here
    cases here
  have atoms : rt'.atom? = rt.atom? := by
    funext i
    cases mine : rt.atomArray i with
    | free m =>
      rw [atom?_free mine]
      exact atom?_free (slots ▸ mine)
    | atom p => rw [atom?_of mine, atom?_of (by rw [slots, mine]), strings, if_neg (apart i p mine)]
  have hashed : ∀ j, rt'.Hashed j ↔ rt.Hashed j := by
    intro j
    rw [AtomRuntime.Hashed, atoms, AtomRuntime.Hashed]
  have entries : ∀ q, rt'.entry q = if q = rt.heapTop then some (text, none) else rt.entry q := by
    intro q
    rw [AtomRuntime.entry, strings]
    split <;> rfl
  have counts : ∀ q, rt'.count q = if q = rt.heapTop then 1 else rt.count q := by
    intro q
    rw [AtomRuntime.count, strings]
    split <;> rfl
  have unheld : held rt.heapTop = 0 := Nat.eq_zero_of_not_pos fun holds =>
    sound.counted.holds _ holds (entry_none.2 unused)
  refine ⟨⟨?_, ?_⟩, ⟨fun i p slot _ => by rw [slot?]; exact slot, fun p text' t here => ?_,
    by rw [made]; exact Nat.le_succ _, fun p inside none => ?_, by rw [made]; exact id⟩, ?_,
    ⟨fun q text' t here _ => ?_, fun i _ there => ?_, by rw [made]; exact id, fun q text' here => ?_⟩,
    by rw [made]; rfl⟩
  · exact {
      inside := by
        rw [slots, made]
        exact inv.inside
      there := fun i p slot => by
        rw [slots] at slot
        obtain ⟨s, t, here, rest⟩ := inv.there i p slot
        exact ⟨s, t, by rw [strings, if_neg (apart i p slot), here], rest⟩
      apart := by
        rw [slots]
        exact inv.apart
      slotted := fun p s here isAtom => by
        rw [strings] at here
        rw [slots]
        split at here
        · cases here
          exact absurd rfl isAtom
        · exact inv.slotted p s here isAtom
      below := fun p there => by
        rw [strings] at there
        have top : rt'.heapTop = rt.heapTop + 1 := by rw [made]; rfl
        rw [top]
        split at there
        · next equal =>
          rw [equal]
          exact Nat.lt_succ_self _
        · exact Nat.lt_succ_of_lt (inv.below p there)
      null := by
        rw [atoms, made]
        exact inv.null
      symbols := by
        rw [atoms]
        exact inv.symbols
      free := by
        have nexts : rt'.freeNext = rt.freeNext := by
          funext i
          rw [AtomRuntime.freeNext, slots, AtomRuntime.freeNext]
        rw [nexts, slots, made]
        exact inv.free
      filed := by
        refine filed_of_same inv.filed (fun b => by rw [made]; rfl) (fun j _ => ?_) hashed fun j _ => ?_
        · show rt'.next j = rt.next j
          rw [AtomRuntime.next, atoms, AtomRuntime.next]
        · rw [AtomRuntime.bucketOf, atoms, AtomRuntime.bucketOf, made]
          rfl
      power := by
        rw [made]
        exact inv.power
      hashes := by
        rw [atoms]
        exact inv.hashes
      unique := by
        rw [atoms]
        exact inv.unique
      numeric := by
        rw [atoms]
        exact inv.numeric }
  · refine ⟨fun i p slot => ?_, fun p text' here => ?_, fun p there => ?_, fun p holds => ?_,
      fun i positive holds => ?_, sound.counted.null⟩
    · rw [slot?] at slot
      have other := apart i p (slot?_eq.1 slot)
      rw [counts, if_neg other, gain, Function.update_of_ne other]
      exact sound.counted.atoms i p slot
    · rw [entries] at here
      rw [counts, gain]
      split at here
      · next equal => rw [if_pos equal, equal, Function.update_self, unheld]
      · next other =>
        rw [if_neg other, Function.update_of_ne other]
        exact sound.counted.plain p text' here
    · rw [entries] at there
      rw [counts]
      split
      · exact Nat.zero_lt_one
      · next other =>
        rw [if_neg other] at there
        exact sound.counted.positive p there
    · rw [entries]
      split
      · exact Option.some_ne_none _
      · next other =>
        rw [gain, Function.update_of_ne other] at holds
        exact sound.counted.holds p holds
    · rw [slot?]
      exact sound.counted.names i positive holds
  · rw [entries]
    split
    · next equal =>
      rw [equal, entry_none.2 unused] at here
      cases here
    · exact .inr ⟨t, here, fun _ => rfl⟩
  · rw [entries, if_neg (Nat.ne_of_lt inside)]
    exact none
  · rw [entries, if_pos rfl]
  · rw [entries] at here
    split at here
    · cases here
    · exact here
  · rwa [slot?] at there
  · rw [entries]
    split
    · next equal =>
      rw [equal, entry_none.2 unused] at here
      cases here
    · exact .inr here

theorem interned_free (inv : Interned rt) (plain : rt.entry p = some (text, none)) :
    Interned (rt.set p none) ∧ (rt.set p none).slot? = rt.slot? := by
  obtain ⟨s, here, -, type⟩ := string_of plain
  have apart : ∀ i q, rt.atomArray i = .atom q → q ≠ p := by
    rintro i q slot rfl
    obtain ⟨s', t, there, type', -⟩ := inv.there i q slot
    rw [here] at there
    cases there
    rw [type] at type'
    cases type'
  have strings : ∀ q, (rt.set p none).strings q = if q = p then none else rt.strings q := by
    intro q
    by_cases equal : q = p
    · subst equal
      simp
    · simp [equal]
  have atoms : (rt.set p none).atom? = rt.atom? := by
    funext i
    cases mine : rt.atomArray i with
    | free m =>
      rw [atom?_free mine]
      exact atom?_free mine
    | atom q =>
      have mine' : (rt.set p none).atomArray i = .atom q := mine
      rw [atom?_of mine, atom?_of mine', strings, if_neg (apart i q mine)]
  refine ⟨?_, rfl⟩
  exact {
    inside := inv.inside
    there := fun i q slot => by
      obtain ⟨s', t, there, rest⟩ := inv.there i q slot
      exact ⟨s', t, by rw [strings, if_neg (apart i q slot), there], rest⟩
    apart := inv.apart
    slotted := fun q s' there isAtom => by
      rw [strings] at there
      split at there
      · cases there
      · exact inv.slotted q s' there isAtom
    below := fun q there => by
      rw [strings] at there
      split at there
      · exact absurd rfl there
      · exact inv.below q there
    null := by
      rw [atoms]
      exact inv.null
    symbols := by
      rw [atoms]
      exact inv.symbols
    free := inv.free
    filed := by
      refine filed_of_same inv.filed (fun b => rfl) (fun j _ => ?_) (fun j => ?_) fun j _ => ?_
      · show (rt.set p none).next j = rt.next j
        rw [AtomRuntime.next, atoms, AtomRuntime.next]
      · rw [AtomRuntime.Hashed, atoms, AtomRuntime.Hashed]
      · rw [AtomRuntime.bucketOf, atoms, AtomRuntime.bucketOf]
        rfl
    power := inv.power
    hashes := by
      rw [atoms]
      exact inv.hashes
    unique := by
      rw [atoms]
      exact inv.unique
    numeric := by
      rw [atoms]
      exact inv.numeric }

theorem sound_release {held' : Addr → Nat} (sound : Sound held named rt) (here : rt.strings p = some s)
    (others : ∀ q, q ≠ p → held' q = held q) (names : ∀ i, rt.slot? i ≠ some p → named' i = named i)
    (atom : ∀ i, rt.slot? i = some p → s.refCount = held' p + named' i + 1)
    (plain : ∀ text, rt.entry p = some (text, none) → s.refCount = held' p + 1) (null : named' 0 = 1) :
    ∃ rt', jsFreeString rt p = some rt' ∧ Sound held' named' rt' ∧ Keeps named' rt rt' ∧
      NoneNew rt rt' := by
  have inv := sound.interned
  have unfolds : jsFreeString rt p = if s.refCount ≤ 1 then
      if s.atomType = none then some ((rt.set p (some { s with refCount := s.refCount - 1 })).set p none)
      else jsFreeAtomStruct (rt.set p (some { s with refCount := s.refCount - 1 })) p
      else some (rt.set p (some { s with refCount := s.refCount - 1 })) := by
    simp only [jsFreeString, here, Option.bind_eq_bind, Option.bind_some]
  rw [unfolds]
  by_cases last : s.refCount ≤ 1
  · rw [if_pos last]
    obtain ⟨inv₁, same, counts⟩ := recount_same inv here (s.refCount - 1)
    obtain ⟨rt₁, made⟩ : ∃ rt₁, rt₁ = rt.set p (some { s with refCount := s.refCount - 1 }) := ⟨_, rfl⟩
    rw [← made] at inv₁ same counts ⊢
    have here₁ : rt₁.entry p = some (s.text, s.atomType) := by
      rw [entry_same same, entry_of here]
    have elsewhere : ∀ q, q ≠ p → rt₁.count q = rt.count q := fun q other => by
      rw [counts, Function.update_of_ne other]
    cases type : s.atomType with
    | none =>
      rw [if_pos rfl]
      rw [type] at here₁
      obtain ⟨inv₂, slots⟩ := interned_free inv₁ here₁
      have gone : held' p = 0 := by
        have count := plain s.text (by rw [entry_of here, type])
        omega
      have unslotted : ∀ i, rt.slot? i ≠ some p := by
        intro i slot
        obtain ⟨text, t, there, -⟩ := entry_slot inv slot
        rw [entry_of here, type] at there
        cases there
      have entries : ∀ q, (rt₁.set p none).entry q = if q = p then none else rt.entry q := by
        intro q
        rw [← entry_same same]
        by_cases equal : q = p
        · subst equal
          simp [AtomRuntime.entry]
        · simp [AtomRuntime.entry, equal]
      have counts₂ : ∀ q, q ≠ p → (rt₁.set p none).count q = rt.count q := by
        intro q other
        rw [← elsewhere q other]
        simp [AtomRuntime.count, other]
      have slots₂ : (rt₁.set p none).slot? = rt.slot? := slots.trans (slot?_same same)
      refine ⟨_, rfl, ⟨inv₂, fun i q slot => ?_, fun q text there => ?_, fun q there => ?_,
        fun q holds => ?_, fun i positive holds => ?_, null⟩, ⟨fun i q slot _ => ?_,
        fun q text t there => ?_, Nat.le_of_eq same.heapTop.symm, fun q _ none => ?_,
        same.atomSize ▸ id⟩,
        ⟨fun q text t there _ => ?_, fun i _ there => ?_, fun some_ => ?_, fun q text there => ?_⟩⟩
      · rw [slots₂] at slot
        have other : q ≠ p := by
          rintro rfl
          exact unslotted i slot
        rw [counts₂ q other, others q other, names i (unslotted i)]
        exact sound.counted.atoms i q slot
      · rw [entries] at there
        split at there
        · cases there
        · next other =>
          rw [counts₂ q other, others q other]
          exact sound.counted.plain q text there
      · rw [entries] at there
        split at there
        · exact absurd rfl there
        · next other =>
          rw [counts₂ q other]
          exact sound.counted.positive q there
      · rw [entries]
        split
        · next equal =>
          rw [equal, gone] at holds
          exact absurd holds (Nat.lt_irrefl 0)
        · next other =>
          rw [others q other] at holds
          exact sound.counted.holds q holds
      · rw [slots₂]
        rw [names i (unslotted i)] at holds
        exact sound.counted.names i positive holds
      · rw [slots₂]
        exact slot
      · rw [entries]
        split
        · exact .inl rfl
        · exact .inr ⟨t, there, fun _ => rfl⟩
      · rw [entries, none]
        split <;> rfl
      · rw [entries] at there
        split at there
        · cases there
        · exact there
      · rwa [slots₂] at there
      · show rt₁.atomFreeIndex ≠ 0
        rwa [same.atomFreeIndex]
      · rw [entries]
        split
        · exact .inl rfl
        · exact .inr there
    | some t =>
      rw [if_neg (Option.some_ne_none t)]
      rw [type] at here₁
      obtain ⟨i, slot₁⟩ := slot_entry inv₁ here₁
      have slot : rt.slot? i = some p := by rw [← slot?_same same, slot₁]
      have count := atom i slot
      have positive : 0 < i := by
        refine Nat.pos_of_ne_zero ?_
        rintro rfl
        omega
      have gone : held' p = 0 ∧ named' i = 0 := by omega
      obtain ⟨rt₂, freed, inv₂, slots, entries, counts₂, top, next, size⟩ :=
        jsFreeAtomStruct_spec inv₁ (slot?_eq.1 slot₁) positive
      rw [slot?_same same] at slots
      rw [entry_same same] at entries
      have only : ∀ j, rt.slot? j = some p → j = i := fun j mine => slot_unique inv mine slot
      refine ⟨rt₂, freed, ⟨inv₂, fun j q mine => ?_, fun q text there => ?_, fun q there => ?_,
        fun q holds => ?_, fun j inside holds => ?_, null⟩, ⟨fun j q mine holds => ?_,
        fun q text u there => ?_, Nat.le_of_eq (top.trans same.heapTop).symm, fun q _ none => ?_,
        (size.trans same.atomSize) ▸ id⟩,
        ⟨fun q text u there _ => ?_, fun j _ there => ?_, fun _ => ?_, fun q text there => ?_⟩⟩
      · rw [slots] at mine
        by_cases equal : j = i
        · rw [equal, Function.update_self] at mine
          cases mine
        · rw [Function.update_of_ne equal] at mine
          have other : q ≠ p := by
            rintro rfl
            exact equal (only j mine)
          rw [counts₂ q other, elsewhere q other, others q other, names j fun same => equal (only j same)]
          exact sound.counted.atoms j q mine
      · rw [entries] at there
        by_cases equal : q = p
        · rw [equal, Function.update_self] at there
          cases there
        · rw [Function.update_of_ne equal] at there
          rw [counts₂ q equal, elsewhere q equal, others q equal]
          exact sound.counted.plain q text there
      · rw [entries] at there
        by_cases equal : q = p
        · rw [equal, Function.update_self] at there
          exact absurd rfl there
        · rw [Function.update_of_ne equal] at there
          rw [counts₂ q equal, elsewhere q equal]
          exact sound.counted.positive q there
      · rw [entries]
        by_cases equal : q = p
        · rw [equal, gone.1] at holds
          exact absurd holds (Nat.lt_irrefl 0)
        · rw [Function.update_of_ne equal]
          rw [others q equal] at holds
          exact sound.counted.holds q holds
      · rw [slots]
        by_cases equal : j = i
        · rw [equal, gone.2] at holds
          exact absurd holds (Nat.lt_irrefl 0)
        · rw [Function.update_of_ne equal]
          rw [names j fun same => equal (only j same)] at holds
          exact sound.counted.names j inside holds
      · rw [slots, Function.update_of_ne]
        · exact mine
        · rintro rfl
          rw [gone.2] at holds
          exact absurd holds (Nat.lt_irrefl 0)
      · rw [entries]
        by_cases equal : q = p
        · rw [equal, Function.update_self]
          exact .inl rfl
        · rw [Function.update_of_ne equal]
          exact .inr ⟨u, there, fun _ => rfl⟩
      · rw [entries]
        by_cases equal : q = p
        · rw [equal, Function.update_self]
        · rw [Function.update_of_ne equal, none]
      · rw [entries] at there
        by_cases equal : q = p
        · rw [equal, Function.update_self] at there
          cases there
        · rwa [Function.update_of_ne equal] at there
      · rw [slots] at there
        by_cases equal : j = i
        · rw [equal, slot]
          exact Option.some_ne_none p
        · rwa [Function.update_of_ne equal] at there
      · omega
      · rw [entries]
        by_cases equal : q = p
        · rw [equal, Function.update_self]
          exact .inl rfl
        · rw [Function.update_of_ne equal]
          exact .inr there
  · rw [if_neg last]
    have more := sound_recount sound here (show 0 < s.refCount - 1 by omega) others names
      (fun i slot => by
        have count := atom i slot
        omega)
      (fun text there => by
        have count := plain text there
        omega) null
    have same := (recount_same inv here (s.refCount - 1)).2.1
    refine ⟨_, rfl, more.1, keeps_same same, fun q text t there _ => ?_, fun i _ there => ?_,
      fun some_ => ?_, fun q text there => ?_⟩
    · rwa [entry_same same] at there
    · rwa [slot?_same same] at there
    · rwa [same.atomFreeIndex]
    · rw [entry_same same]
      exact .inr there

theorem sound_drop (sound : Sound held named rt) (holds : 0 < held p) :
    ∃ rt', jsFreeString rt p = some rt' ∧ Sound (lose held p) named rt' ∧ Keeps named rt rt' ∧
      NoneNew rt rt' := by
  obtain ⟨⟨text, t⟩, entry⟩ := Option.ne_none_iff_exists'.1 (sound.counted.holds p holds)
  obtain ⟨s, here, -⟩ := string_of entry
  have lost : lose held p p = held p - 1 := Function.update_self ..
  refine sound_release sound here (fun q other => Function.update_of_ne other _ _) (fun _ _ => rfl)
    (fun i slot => ?_) (fun text there => ?_) sound.counted.null
  · have count := sound.counted.atoms i p slot
    rw [count_of here] at count
    omega
  · have count := sound.counted.plain p text there
    rw [count_of here] at count
    omega

theorem chain_freeSlots {start newSize : Nat} {next : Nat → Option Nat}
    (nexts : ∀ i, start ≤ i → i < newSize → next i = link (if i = newSize - 1 then 0 else i + 1))
    (positive : 0 < start) (n : Nat) : ∀ k, start ≤ k → k + n = newSize →
      Chain next (link (if n = 0 then 0 else k)) (List.range' k n) := by
  induction n with
  | zero => exact fun k _ _ => .stop
  | succ n ih =>
    intro k above total
    rw [if_neg (Nat.succ_ne_zero n), link_some (by omega), List.range'_succ]
    refine .link ?_
    rw [nexts k above (by omega)]
    have rest := ih (k + 1) (by omega) (by omega)
    by_cases last : n = 0
    · rw [if_pos (by omega)]
      rwa [if_pos last] at rest
    · rw [if_neg (by omega)]
      rwa [if_neg last] at rest

/-- Growing the table adds free slots, and first of all the entry of `JS_ATOM_NULL`. -/
theorem sound_grow (sound : Sound held named rt) (full : rt.atomFreeIndex = 0)
    (small : rt.atomSize * 3 < 2 ^ 31) :
    ∃ grown, growAtoms rt = some grown ∧
      (grown = none → atomMax < max 211 (rt.atomSize * 3 / 2)) ∧
      ∀ rt' ∈ grown, Sound held named rt' ∧ Keeps named rt rt' ∧ rt'.atomFreeIndex ≠ 0 ∧
        NoneNew rt rt' := by
  have inv := sound.interned
  unfold growAtoms
  simp only [guard, if_pos small, Option.pure_def, Option.bind_eq_bind, Option.bind_some]
  by_cases big : atomMax < max 211 (rt.atomSize * 3 / 2)
  · rw [if_pos big]
    exact ⟨none, rfl, fun _ => big, fun rt' there => by cases there⟩
  · rw [if_neg big]
    obtain ⟨newSize, sized⟩ : ∃ newSize, newSize = max 211 (rt.atomSize * 3 / 2) := ⟨_, rfl⟩
    rw [← sized]
    have more : max 1 rt.atomSize < newSize := by omega
    refine ⟨_, rfl, (fun failed => by cases failed), fun rt' made => ?_⟩
    rw [Option.mem_some_iff] at made
    have unused : rt.strings rt.heapTop = none := by
      by_contra there
      exact Nat.lt_irrefl _ (inv.below _ there)
    have old : ∀ i p, rt.atomArray i = .atom p → ¬ (max 1 rt.atomSize ≤ i) ∧ rt.atomSize ≠ 0 ∧
        p ≠ rt.heapTop := by
      intro i p slot
      have inside := inv.inside i p slot
      refine ⟨by omega, by omega, ?_⟩
      rintro rfl
      obtain ⟨s, t, here, -⟩ := inv.there i _ slot
      rw [unused] at here
      cases here
    -- the fields of the new table, whether it is the first or not
    have fields : rt'.strings = (fun q => if rt.atomSize = 0 ∧ q = rt.heapTop then
        some ⟨1, .ofUnits [], 0, some .symbol, 0⟩ else rt.strings q) ∧
        rt'.atomArray = (fun i => if max 1 rt.atomSize ≤ i ∧ i < newSize then
          .free (if i = newSize - 1 then 0 else i + 1)
          else if rt.atomSize = 0 ∧ i = 0 then .atom rt.heapTop else rt.atomArray i) ∧
        rt'.atomSize = newSize ∧ rt'.atomFreeIndex = max 1 rt.atomSize ∧
        rt'.atomCount = (if rt.atomSize = 0 then rt.atomCount + 1 else rt.atomCount) ∧
        rt'.heapTop = (if rt.atomSize = 0 then rt.heapTop + 1 else rt.heapTop) ∧
        rt'.atomHash = rt.atomHash ∧ rt'.atomHashSize = rt.atomHashSize := by
      by_cases empty : rt.atomSize = 0
      · simp only [if_pos empty, AtomRuntime.alloc] at made
        subst made
        refine ⟨?_, ?_, rfl, by simp [empty], by simp [empty, AtomRuntime.set], by simp [empty], rfl, rfl⟩
        · funext q
          by_cases equal : q = rt.heapTop
          · subst equal
            simp [empty]
          · simp [equal]
        · funext i
          by_cases zero : i = 0
          · subst zero
            simp [freeSlots, empty]
          · simp [freeSlots, empty, zero, AtomRuntime.set]
      · simp only [if_neg empty] at made
        subst made
        have larger : max 1 rt.atomSize = rt.atomSize := by omega
        refine ⟨?_, ?_, rfl, by rw [larger], by simp [empty], by simp [empty], rfl, rfl⟩
        · funext q
          simp [empty]
        · funext i
          simp [freeSlots, empty, larger]
    obtain ⟨strings, slots, size, freeIndex, atomCount, top, hash, hashSize⟩ := fields
    have slots' : ∀ i q, rt'.atomArray i = .atom q ↔
        rt.atomArray i = .atom q ∨ (rt.atomSize = 0 ∧ i = 0 ∧ q = rt.heapTop) := by
      intro i q
      rw [slots]
      simp only
      split
      · next fresh =>
        simp only [reduceCtorEq, false_iff, not_or]
        refine ⟨fun slot => (old i q slot).1 fresh.1, ?_⟩
        rintro ⟨-, rfl, -⟩
        omega
      · split
        · next first =>
          rw [AtomSlot.atom.injEq]
          constructor
          · rintro rfl
            exact .inr ⟨first.1, first.2, rfl⟩
          · rintro (slot | ⟨-, -, rfl⟩)
            · exact absurd first.1 (old i q slot).2.1
            · rfl
        · next other =>
          refine ⟨.inl, ?_⟩
          rintro (slot | ⟨empty, zero, -⟩)
          · exact slot
          · exact absurd ⟨empty, zero⟩ other
    have kept : ∀ q, rt.strings q ≠ none → rt'.strings q = rt.strings q := by
      intro q there
      rw [strings]
      simp only
      rw [if_neg]
      rintro ⟨-, rfl⟩
      exact there unused
    have atoms : ∀ i s, rt'.atom? i = some s ↔ rt.atom? i = some s ∨
        (rt.atomSize = 0 ∧ i = 0 ∧ s = ⟨1, .ofUnits [], 0, some .symbol, 0⟩) := by
      intro i s
      constructor
      · intro there
        obtain ⟨q, slot, here⟩ := slot_of there
        rcases (slots' i q).1 slot with before | ⟨empty, zero, rfl⟩
        · obtain ⟨r, t, known, -⟩ := inv.there i q before
          rw [kept q (by rw [known]; exact Option.some_ne_none r)] at here
          exact .inl (by rw [atom?_of before, here])
        · rw [strings] at here
          simp only [empty, and_self, if_true, Option.some.injEq] at here
          exact .inr ⟨empty, zero, here.symm⟩
      · rintro (there | ⟨empty, rfl, rfl⟩)
        · obtain ⟨q, slot, here⟩ := slot_of there
          rw [atom?_of ((slots' i q).2 (.inl slot)), kept q (by rw [here]; exact Option.some_ne_none s), here]
        · rw [atom?_of ((slots' 0 rt.heapTop).2 (.inr ⟨empty, rfl, rfl⟩)), strings]
          simp [empty]
    have named_ : ∀ i s, rt'.atom? i = some s → s.atomType ≠ some .symbol → rt.atom? i = some s := by
      intro i s there other
      refine ((atoms i s).1 there).resolve_right ?_
      rintro ⟨-, -, rfl⟩
      exact other rfl
    have hashed : ∀ i, rt'.Hashed i ↔ rt.Hashed i := by
      intro i
      constructor
      · rintro ⟨s, there, other⟩
        exact ⟨s, named_ i s there other, other⟩
      · rintro ⟨s, there, other⟩
        exact ⟨s, (atoms i s).2 (.inl there), other⟩
    have entries : ∀ q, rt'.entry q = if rt.atomSize = 0 ∧ q = rt.heapTop then
        some (.ofUnits [], some .symbol) else rt.entry q := by
      intro q
      rw [AtomRuntime.entry, strings]
      simp only
      split <;> rfl
    have counts : ∀ q, rt'.count q = if rt.atomSize = 0 ∧ q = rt.heapTop then 1 else rt.count q := by
      intro q
      rw [AtomRuntime.count, strings]
      simp only
      split <;> rfl
    have unheld : held rt.heapTop = 0 := Nat.eq_zero_of_not_pos fun holds =>
      sound.counted.holds _ holds (entry_none.2 unused)
    refine ⟨⟨?_, ?_⟩, ⟨fun i p slot _ => ?_, fun p text t here => .inr ⟨t, ?_, fun _ => rfl⟩, ?_,
      fun p inside none => ?_, fun _ => ?_⟩, by omega,
      ⟨fun q text t here other => ?_, fun i positive there => ?_, fun _ => by omega,
        fun q text here => ?_⟩⟩
    · exact {
        inside := fun i p slot => by
          rw [size]
          rcases (slots' i p).1 slot with before | ⟨-, rfl, -⟩
          · have inside := inv.inside i p before
            omega
          · omega
        there := fun i p slot => by
          rcases (slots' i p).1 slot with before | ⟨empty, -, rfl⟩
          · obtain ⟨s, t, here, rest⟩ := inv.there i p before
            exact ⟨s, t, by rw [kept p (by rw [here]; exact Option.some_ne_none s), here], rest⟩
          · refine ⟨⟨1, .ofUnits [], 0, some .symbol, 0⟩, .symbol, ?_, rfl, by decide⟩
            rw [strings]
            simp [empty]
        apart := fun i j p first second => by
          rcases (slots' i p).1 first with before | ⟨empty, rfl, rfl⟩
          · rcases (slots' j p).1 second with before' | ⟨empty, -, rfl⟩
            · exact inv.apart i j p before before'
            · exact absurd empty (old i _ before).2.1
          · rcases (slots' j _).1 second with before' | ⟨-, rfl, -⟩
            · exact absurd empty (old j _ before').2.1
            · rfl
        slotted := fun p s here isAtom => by
          rw [strings] at here
          simp only at here
          split at here
          · next fresh => exact ⟨0, (slots' 0 p).2 (.inr ⟨fresh.1, rfl, fresh.2⟩)⟩
          · obtain ⟨i, slot⟩ := inv.slotted p s here isAtom
            exact ⟨i, (slots' i p).2 (.inl slot)⟩
        below := fun p there => by
          rw [strings] at there
          rw [top]
          simp only at there
          split at there
          · next fresh =>
            rw [if_pos fresh.1, fresh.2]
            exact Nat.lt_succ_self _
          · have inside := inv.below p there
            split
            · exact Nat.lt_succ_of_lt inside
            · exact inside
        null := fun _ => by
          by_cases empty : rt.atomSize = 0
          · exact ⟨⟨1, .ofUnits [], 0, some .symbol, 0⟩, (atoms 0 _).2 (.inr ⟨empty, rfl, rfl⟩), rfl⟩
          · obtain ⟨s, there, symbol⟩ := inv.null (by omega)
            exact ⟨s, (atoms 0 s).2 (.inl there), symbol⟩
        symbols := fun i s there symbol => by
          rcases (atoms i s).1 there with before | ⟨-, rfl, rfl⟩
          · exact inv.symbols i s before symbol
          · rfl
        free := by
          obtain ⟨is, chain, -, members, total⟩ := inv.free
          rw [full] at chain
          cases chain
          have every : ∀ i, i < rt.atomSize → ∃ p, rt.atomArray i = .atom p := by
            intro i inside
            by_contra none
            have there := (members i).2 ⟨inside, fun p slot => none ⟨p, slot⟩⟩
            cases there
          refine ⟨List.range' (max 1 rt.atomSize) (newSize - max 1 rt.atomSize), ?_, List.nodup_range',
            fun i => ?_, ?_⟩
          · have nexts : ∀ i, max 1 rt.atomSize ≤ i → i < newSize →
                rt'.freeNext i = link (if i = newSize - 1 then 0 else i + 1) := by
              intro i above below
              rw [AtomRuntime.freeNext, slots]
              simp [above, below]
            have built := @chain_freeSlots (max 1 rt.atomSize) newSize rt'.freeNext nexts
              (by omega) (newSize - max 1 rt.atomSize) (max 1 rt.atomSize) (Nat.le_refl _) (by omega)
            rw [if_neg (by omega)] at built
            rw [freeIndex]
            exact built
          · rw [List.mem_range'_1, size]
            constructor
            · rintro ⟨above, below⟩
              refine ⟨by omega, fun p slot => ?_⟩
              rcases (slots' i p).1 slot with before | ⟨-, rfl, -⟩
              · exact (old i p before).1 above
              · omega
            · rintro ⟨below, none⟩
              refine ⟨?_, by omega⟩
              by_contra inside
              rcases Nat.eq_zero_or_pos rt.atomSize with empty | positive
              · have zero : i = 0 := by omega
                exact none rt.heapTop ((slots' i _).2 (.inr ⟨empty, zero, rfl⟩))
              · obtain ⟨p, slot⟩ := every i (by omega)
                exact none p ((slots' i p).2 (.inl slot))
          · rw [List.length_range', size, atomCount]
            rw [List.length_nil, Nat.zero_add] at total
            split <;> omega
        filed := by
          refine filed_of_same inv.filed (fun b => by simp [AtomRuntime.links, hash]) (fun i known => ?_)
            hashed fun i known => ?_
          · obtain ⟨s, there, other⟩ := known
            show rt'.next i = rt.next i
            rw [next_of there, next_of ((atoms i s).2 (.inl there))]
          · obtain ⟨s, there, other⟩ := known
            rw [bucketOf_of there, bucketOf_of ((atoms i s).2 (.inl there)), hashSize]
        power := by
          rw [hashSize]
          exact inv.power
        hashes := fun i s t there type other => inv.hashes i s t
          (named_ i s there (by rw [type]; simpa using other)) type other
        unique := fun i j s s' there there' types other units => inv.unique i j s s'
          (named_ i s there other) (named_ j s' there' (by rwa [← types])) types other units
        numeric := fun i s there type => inv.numeric i s (named_ i s there (by rw [type]; decide)) type }
    · refine ⟨fun i p slot => ?_, fun p text here => ?_, fun p there => ?_, fun p holds => ?_,
        fun i positive holds => ?_, sound.counted.null⟩
      · rw [counts]
        rcases (slots' i p).1 (slot?_eq.1 slot) with before | ⟨empty, rfl, rfl⟩
        · rw [if_neg fun fresh => (old i p before).2.2 fresh.2]
          exact sound.counted.atoms i p (slot?_eq.2 before)
        · rw [if_pos ⟨empty, rfl⟩, unheld, sound.counted.null]
      · rw [entries] at here
        rw [counts]
        split at here
        · cases here
        · next other =>
          rw [if_neg other]
          exact sound.counted.plain p text here
      · rw [entries] at there
        rw [counts]
        split
        · exact Nat.zero_lt_one
        · next other =>
          rw [if_neg other] at there
          exact sound.counted.positive p there
      · rw [entries]
        split
        · exact Option.some_ne_none _
        · exact sound.counted.holds p holds
      · obtain ⟨p, slot⟩ := Option.ne_none_iff_exists'.1 (sound.counted.names i positive holds)
        rw [slot?_eq.2 ((slots' i p).2 (.inl (slot?_eq.1 slot)))]
        exact Option.some_ne_none p
    · exact slot?_eq.2 ((slots' i p).2 (.inl (slot?_eq.1 slot)))
    · rw [entries, if_neg]
      · exact here
      · rintro ⟨-, rfl⟩
        rw [entry_none.2 unused] at here
        cases here
    · rw [top]
      split
      · exact Nat.le_succ _
      · exact Nat.le_refl _
    · rw [entries, if_neg fun fresh => Nat.ne_of_lt inside fresh.2]
      exact none
    · rw [size]
      omega
    · rw [entries] at here
      split at here
      · cases here
        exact absurd rfl other
      · exact here
    · obtain ⟨p, slot⟩ := Option.ne_none_iff_exists'.1 there
      rcases (slots' i p).1 (slot?_eq.1 slot) with before | ⟨-, rfl, -⟩
      · rw [slot?_eq.2 before]
        exact Option.some_ne_none p
      · exact absurd positive (Nat.lt_irrefl 0)
    · rw [entries, if_neg]
      · exact .inr here
      · rintro ⟨-, rfl⟩
        rw [entry_none.2 unused] at here
        cases here

theorem power_double {m : Nat} (power : m &&& (m - 1) = 0) (positive : 0 < m) :
    m * 2 &&& (m * 2 - 1) = 0 := by
  refine Nat.eq_of_testBit_eq fun k => ?_
  rw [Nat.testBit_and, Nat.zero_testBit]
  cases k with
  | zero =>
    have even : (m * 2).testBit 0 = false := by simp
    rw [even, Bool.false_and]
  | succ k =>
    have low : (m * 2 - 1) / 2 = m - 1 := by omega
    have bit := congrArg (fun n => n.testBit k) power
    simp only [Nat.testBit_and, Nat.zero_testBit] at bit
    rw [Nat.testBit_succ, Nat.testBit_succ, low, Nat.mul_div_cancel m Nat.zero_lt_two, bit]

theorem sound_register {t : AtomType} {h : Nat} (sound : Sound held named rt)
    (room : rt.atomFreeIndex ≠ 0) (plain : rt.entry p = some (text, none)) (holds : 0 < held p)
    (stored : t ≠ .privateName)
    (hash : t ≠ .symbol → h = hashString text t.number &&& atomHashMask)
    (fresh : t ≠ .symbol → ∀ q text', rt.entry q = some (text', some t) → text'.units ≠ text.units)
    (numeric : t = .string → ∀ n, isNumString text = some n → atomMaxInt < n) :
    ∃ rt', registerAtom rt p h t = some (rt.atomFreeIndex, rt') ∧
      Sound (lose held p) (Function.update named rt.atomFreeIndex 1) rt' ∧ Keeps named rt rt' ∧
      named rt.atomFreeIndex = 0 ∧ rt'.slot? rt.atomFreeIndex = some p ∧
      rt'.entry p = some (text, some t) ∧
      rt'.atomArray = Function.update rt.atomArray rt.atomFreeIndex (.atom p) ∧
      rt.atomArray rt.atomFreeIndex = .free rt'.atomFreeIndex ∧ rt'.atomSize = rt.atomSize := by
  have inv := sound.interned
  obtain ⟨s, here, rfl, type⟩ := string_of plain
  obtain ⟨i, index⟩ : ∃ i, i = rt.atomFreeIndex := ⟨_, rfl⟩
  rw [← index] at room ⊢
  have positive : 0 < i := Nat.pos_of_ne_zero room
  obtain ⟨is, chain, nodup, members, total⟩ := inv.free
  rw [← index, link_some positive] at chain
  obtain ⟨is', rfl, rest⟩ : ∃ is', is = i :: is' ∧ Chain rt.freeNext (rt.freeNext i) is' := by
    cases chain with
    | link rest => exact ⟨_, rfl, rest⟩
  have known := (members i).1 List.mem_cons_self
  obtain ⟨n, slot⟩ : ∃ n, rt.atomArray i = .free n := by
    cases mine : rt.atomArray i with
    | free n => exact ⟨n, rfl⟩
    | atom q => exact absurd mine (known.2 q)
  have empty : rt.slot? i = none := by simp [AtomRuntime.slot?, slot]
  have unnamed : named i = 0 := Nat.eq_zero_of_not_pos fun some_ =>
    sound.counted.names i positive some_ empty
  have apart : ∀ j q, rt.atomArray j = .atom q → j ≠ i ∧ q ≠ p := by
    intro j q mine
    refine ⟨?_, ?_⟩
    · rintro rfl
      rw [slot] at mine
      cases mine
    · rintro rfl
      obtain ⟨s', u, there, type', -⟩ := inv.there j q mine
      rw [here] at there
      cases there
      rw [type] at type'
      cases type'
  obtain ⟨rt₁, made⟩ : ∃ rt₁, rt₁ = { rt with
    atomFreeIndex := n
    atomArray := Function.update rt.atomArray i (.atom p)
    strings := (rt.set p (some { s with
      hash := h
      atomType := some t
      hashNext := if t ≠ AtomType.symbol then rt.atomHash (h &&& (rt.atomHashSize - 1)) else i })).strings
    atomCount := rt.atomCount + 1
    atomHash := if t ≠ AtomType.symbol then Function.update rt.atomHash (h &&& (rt.atomHashSize - 1)) i
      else rt.atomHash } := ⟨_, rfl⟩
  obtain ⟨new, newIs⟩ : ∃ new : StringStruct, new = { s with
      hash := h
      atomType := some t
      hashNext := if t ≠ AtomType.symbol then rt.atomHash (h &&& (rt.atomHashSize - 1)) else i } := ⟨_, rfl⟩
  have strings : ∀ q, rt₁.strings q = if q = p then some new else rt.strings q := by
    intro q
    rw [made, newIs]
    by_cases equal : q = p
    · subst equal
      simp
    · simp [equal]
  have slots : ∀ j q, rt₁.atomArray j = .atom q ↔ (j = i ∧ q = p) ∨ rt.atomArray j = .atom q := by
    intro j q
    rw [made]
    simp only
    by_cases equal : j = i
    · subst equal
      rw [Function.update_self, slot]
      simp [eq_comm]
    · rw [Function.update_of_ne equal]
      simp [equal]
  have atoms : ∀ j r, rt₁.atom? j = some r ↔ (j = i ∧ r = new) ∨ rt.atom? j = some r := by
    intro j r
    constructor
    · intro there
      obtain ⟨q, mine, here'⟩ := slot_of there
      rw [strings] at here'
      rcases (slots j q).1 mine with ⟨rfl, rfl⟩ | before
      · rw [if_pos rfl] at here'
        cases here'
        exact .inl ⟨rfl, rfl⟩
      · rw [if_neg (apart j q before).2] at here'
        exact .inr (by rw [atom?_of before, here'])
    · rintro (⟨rfl, rfl⟩ | there)
      · rw [atom?_of ((slots _ p).2 (.inl ⟨rfl, rfl⟩)), strings, if_pos rfl]
      · obtain ⟨q, mine, here'⟩ := slot_of there
        rw [atom?_of ((slots j q).2 (.inr mine)), strings, if_neg (apart j q mine).2, here']
  have taken : t ≠ .symbol → ∀ j r, rt.atom? j = some r → r.atomType = some t →
      r.text.units ≠ s.text.units := by
    intro other j r there type'
    obtain ⟨q, -, here'⟩ := slot_of there
    exact fresh other q r.text (by rw [entry_of here', type'])
  have old : ∀ j r, rt.atom? j = some r → j ≠ i := by
    intro j r there
    obtain ⟨q, mine, -⟩ := slot_of there
    exact (apart j q mine).1
  have newFields : new.text = s.text ∧ new.hash = h ∧ new.atomType = some t ∧
      new.refCount = s.refCount ∧
      new.hashNext = if t ≠ AtomType.symbol then rt.atomHash (h &&& (rt.atomHashSize - 1)) else i := by
    rw [newIs]
    exact ⟨rfl, rfl, rfl, rfl, rfl⟩
  have mine₁ : rt₁.atom? i = some new := (atoms i new).2 (.inl ⟨rfl, rfl⟩)
  have sizes : rt₁.atomSize = rt.atomSize ∧ rt₁.atomHashSize = rt.atomHashSize ∧
      rt₁.heapTop = rt.heapTop ∧ rt₁.atomFreeIndex = n ∧ rt₁.atomCount = rt.atomCount + 1 := by
    rw [made]
    exact ⟨rfl, rfl, rfl, rfl, rfl⟩
  obtain ⟨size, hashSize, top, freeIndex, atomCount⟩ := sizes
  have hashed : ∀ j, rt₁.Hashed j ↔ (j = i ∧ t ≠ .symbol) ∨ rt.Hashed j := by
    intro j
    constructor
    · rintro ⟨r, there, other⟩
      rcases (atoms j r).1 there with ⟨rfl, rfl⟩ | before
      · rw [newFields.2.2.1] at other
        exact .inl ⟨rfl, fun symbol => other (by rw [symbol])⟩
      · exact .inr ⟨r, before, other⟩
    · rintro (⟨rfl, other⟩ | ⟨r, there, other⟩)
      · exact ⟨new, mine₁, by rw [newFields.2.2.1]; simpa using other⟩
      · exact ⟨r, (atoms j r).2 (.inr there), other⟩
  have entries : ∀ q, rt₁.entry q = if q = p then some (s.text, some t) else rt.entry q := by
    intro q
    rw [AtomRuntime.entry, strings]
    split
    · rw [Option.map_some, newFields.1, newFields.2.2.1]
    · rfl
  have counts : ∀ q, rt₁.count q = rt.count q := by
    intro q
    rw [AtomRuntime.count, strings]
    split
    · next equal =>
      rw [equal, count_of here, Option.map_some, newFields.2.2.2.1]
      rfl
    · rfl
  have inv₁ : Interned rt₁ := {
    inside := fun j q mine => by
      rw [size]
      rcases (slots j q).1 mine with ⟨rfl, -⟩ | before
      · exact known.1
      · exact inv.inside j q before
    there := fun j q mine => by
      rcases (slots j q).1 mine with ⟨rfl, rfl⟩ | before
      · exact ⟨new, t, by rw [strings, if_pos rfl], newFields.2.2.1, stored⟩
      · obtain ⟨r, u, there, rest'⟩ := inv.there j q before
        exact ⟨r, u, by rw [strings, if_neg (apart j q before).2, there], rest'⟩
    apart := fun j k q first second => by
      rcases (slots j q).1 first with ⟨rfl, rfl⟩ | before
      · rcases (slots k q).1 second with ⟨rfl, -⟩ | before'
        · rfl
        · exact absurd rfl (apart k q before').2
      · rcases (slots k q).1 second with ⟨rfl, rfl⟩ | before'
        · exact absurd rfl (apart j q before).2
        · exact inv.apart j k q before before'
    slotted := fun q r there isAtom => by
      rw [strings] at there
      split at there
      · next equal => exact ⟨i, (slots i q).2 (.inl ⟨rfl, equal⟩)⟩
      · obtain ⟨j, mine⟩ := inv.slotted q r there isAtom
        exact ⟨j, (slots j q).2 (.inr mine)⟩
    below := fun q there => by
      rw [strings] at there
      rw [top]
      split at there
      · next equal =>
        rw [equal]
        exact inv.below p (by rw [here]; exact Option.some_ne_none s)
      · exact inv.below q there
    null := fun inside => by
      rw [size] at inside
      obtain ⟨r, there, symbol⟩ := inv.null inside
      exact ⟨r, (atoms 0 r).2 (.inr there), symbol⟩
    symbols := fun j r there symbol => by
      rcases (atoms j r).1 there with ⟨rfl, rfl⟩ | before
      · rw [newFields.2.2.1, Option.some.injEq] at symbol
        rw [newFields.2.2.2.2, if_neg (by simpa using symbol)]
      · exact inv.symbols j r before symbol
    free := by
      rw [List.nodup_cons] at nodup
      have nexts : ∀ j ∈ is', rt₁.freeNext j = rt.freeNext j := by
        intro j there
        have other : j ≠ i := by
          rintro rfl
          exact nodup.1 there
        simp [AtomRuntime.freeNext, made, other]
      refine ⟨is', ?_, nodup.2, fun j => ?_, ?_⟩
      · have follow : rt.freeNext i = link n := by simp [AtomRuntime.freeNext, slot]
        rw [freeIndex, ← follow]
        exact chain_congr rest nexts
      · have before := members j
        rw [List.mem_cons] at before
        rw [size]
        constructor
        · intro there
          have other : j ≠ i := by
            rintro rfl
            exact nodup.1 there
          obtain ⟨inside, free⟩ := before.1 (.inr there)
          refine ⟨inside, fun q mine => ?_⟩
          rcases (slots j q).1 mine with ⟨same, -⟩ | mine'
          · exact other same
          · exact free q mine'
        · rintro ⟨inside, free⟩
          refine (before.2 ⟨inside, fun q mine => free q ((slots j q).2 (.inr mine))⟩).resolve_left ?_
          rintro rfl
          exact free p ((slots _ p).2 (.inl ⟨rfl, rfl⟩))
      · rw [List.length_cons] at total
        rw [size, atomCount]
        omega
    filed := by
      have sameNext : ∀ j, rt.Hashed j → rt₁.next j = rt.next j := by
        rintro j ⟨r, there, -⟩
        rw [next_of there, next_of ((atoms j r).2 (.inr there))]
      have sameBucket : ∀ j, rt.Hashed j → rt₁.bucketOf j = rt.bucketOf j := by
        rintro j ⟨r, there, -⟩
        rw [bucketOf_of there, bucketOf_of ((atoms j r).2 (.inr there)), hashSize]
      have unfiled : ¬ rt.Hashed i := by
        rintro ⟨r, there, -⟩
        exact old i r there rfl
      by_cases symbol : t = .symbol
      · refine filed_of_same inv.filed (fun b => ?_) sameNext (fun j => ?_) sameBucket
        · simp [AtomRuntime.links, made, symbol]
        · rw [hashed]
          simp [symbol]
      · have bucket : rt₁.bucketOf i = h &&& (rt.atomHashSize - 1) := by
          rw [bucketOf_of mine₁, newFields.2.1, hashSize]
        have pushed := filed_push (filed_congr inv.filed (fun _ => Iff.rfl) sameBucket) unfiled
        refine filed_of_same pushed (fun b => ?_) (fun j there => ?_) (fun j => ?_) fun _ _ => rfl
        · show link (rt₁.atomHash b) =
            Function.update (fun b => link (rt.atomHash b)) (rt₁.bucketOf i) (some i) b
          rw [bucket, made]
          simp only [ne_eq, symbol, not_false_eq_true, if_true]
          by_cases same : b = h &&& (rt.atomHashSize - 1)
          · subst same
            rw [Function.update_self, Function.update_self, link_some positive]
          · rw [Function.update_of_ne same, Function.update_of_ne same]
        · show rt₁.next j = Function.update rt.next i (link (rt.atomHash (rt₁.bucketOf i))) j
          by_cases same : j = i
          · subst same
            rw [Function.update_self, next_of mine₁, newFields.2.2.2.2, if_pos symbol, bucket]
          · rw [Function.update_of_ne same]
            exact sameNext j (there.resolve_left same)
        · rw [hashed]
          simp [symbol]
    power := hashSize ▸ inv.power
    hashes := fun j r u there type' other => by
      rcases (atoms j r).1 there with ⟨rfl, rfl⟩ | before
      · rw [newFields.2.2.1, Option.some.injEq] at type'
        subst type'
        rw [newFields.2.1, newFields.1]
        exact hash other
      · exact inv.hashes j r u before type' other
    unique := fun j k r₁ r₂ there₁ there₂ types other units => by
      rcases (atoms j r₁).1 there₁ with ⟨rfl, rfl⟩ | before₁
      · rcases (atoms k r₂).1 there₂ with ⟨rfl, -⟩ | before₂
        · rfl
        · rw [newFields.2.2.1] at types other
          rw [newFields.1] at units
          exact absurd units.symm (taken (by simpa using other) k r₂ before₂ types.symm)
      · rcases (atoms k r₂).1 there₂ with ⟨rfl, rfl⟩ | before₂
        · rw [newFields.2.2.1] at types
          rw [newFields.1] at units
          rw [types] at other
          exact absurd units (taken (by simpa using other) j r₁ before₁ types)
        · exact inv.unique j k r₁ r₂ before₁ before₂ types other units
    numeric := fun j r there type' m number => by
      rcases (atoms j r).1 there with ⟨rfl, rfl⟩ | before
      · rw [newFields.2.2.1, Option.some.injEq] at type'
        rw [newFields.1] at number
        exact numeric type' m number
      · exact inv.numeric j r before type' m number }
  have mineSlot : rt₁.slot? i = some p := slot?_eq.2 ((slots i p).2 (.inl ⟨rfl, rfl⟩))
  have sound₁ : Sound (lose held p) (Function.update named i 1) rt₁ := by
    have lost : lose held p p = held p - 1 := Function.update_self ..
    have others : ∀ q, q ≠ p → lose held p q = held q := fun q other => Function.update_of_ne other _ _
    refine ⟨inv₁, fun j q mine => ?_, fun q text' there => ?_, fun q there => ?_, fun q holds' => ?_,
      fun j inside holds' => ?_, ?_⟩
    · rw [counts]
      rcases (slots j q).1 (slot?_eq.1 mine) with ⟨rfl, rfl⟩ | before
      · have count := sound.counted.plain q s.text plain
        rw [Function.update_self, lost]
        omega
      · rw [Function.update_of_ne (apart j q before).1, others q (apart j q before).2]
        exact sound.counted.atoms j q (slot?_eq.2 before)
    · rw [entries] at there
      rw [counts]
      split at there
      · cases there
      · next other =>
        rw [others q other]
        exact sound.counted.plain q text' there
    · rw [counts]
      refine sound.counted.positive q fun none => there ?_
      rw [entries, if_neg]
      · exact none
      · rintro rfl
        rw [plain] at none
        cases none
    · rw [entries]
      split
      · exact Option.some_ne_none _
      · next other =>
        rw [others q other] at holds'
        exact sound.counted.holds q holds'
    · by_cases same : j = i
      · subst same
        rw [mineSlot]
        exact Option.some_ne_none p
      · rw [Function.update_of_ne same] at holds'
        obtain ⟨q, before⟩ := Option.ne_none_iff_exists'.1 (sound.counted.names j inside holds')
        rw [slot?_eq.2 ((slots j q).2 (.inr (slot?_eq.1 before)))]
        exact Option.some_ne_none q
    · rw [Function.update_of_ne (Nat.ne_of_lt positive)]
      exact sound.counted.null
  have keeps₁ : Keeps named rt rt₁ := by
    refine ⟨fun j q mine _ => slot?_eq.2 ((slots j q).2 (.inr (slot?_eq.1 mine))),
      fun q text' u there => .inr ?_, Nat.le_of_eq top.symm, fun q _ none => ?_, size ▸ id⟩
    · rw [entries]
      by_cases same : q = p
      · rw [if_pos same]
        rw [same, plain] at there
        cases there
        exact ⟨some t, rfl, fun isAtom => absurd rfl isAtom⟩
      · rw [if_neg same]
        exact ⟨u, there, fun _ => rfl⟩
    · rw [entries, if_neg]
      · exact none
      · rintro rfl
        rw [plain] at none
        cases none
  have shape : rt₁.atomArray = Function.update rt.atomArray i (.atom p) ∧
      rt.atomArray i = .free rt₁.atomFreeIndex ∧ rt₁.atomSize = rt.atomSize := by
    rw [made]
    exact ⟨rfl, slot, rfl⟩
  have unfolds : registerAtom rt p h t = if t ≠ .symbol ∧ rt₁.atomCountResize ≤ rt₁.atomCount then
      (jsResizeAtomHash rt₁ (rt₁.atomHashSize * 2)).bind fun rt' => some (i, rt')
      else some (i, rt₁) := by
    rw [made]
    simp only [registerAtom, ← index, slot, here, Option.bind_eq_bind, Option.bind_some,
      decide_eq_true_eq]
  rw [unfolds]
  split
  · obtain ⟨rt₂, resizes, same, counts₂, inv₂⟩ := jsResizeAtomHash_spec inv₁
      (show 0 < rt₁.atomHashSize * 2 by
        have size' := inv₁.power.1
        omega)
      (power_double inv₁.power.2 inv₁.power.1)
    have slots₂ := slot?_same same
    have entries₂ := entry_same same
    refine ⟨rt₂, by rw [resizes, Option.bind_some], ⟨inv₂, ?_⟩, ?_, unnamed, by rw [slots₂, mineSlot],
      by rw [entries₂, entries, if_pos rfl], by rw [same.atomArray, shape.1],
      by rw [same.atomFreeIndex, shape.2.1], by rw [same.atomSize, shape.2.2]⟩
    · obtain ⟨h1, h2, h3, h4, h5, h6⟩ := sound₁.counted
      exact ⟨by rwa [slots₂, counts₂], by rwa [entries₂, counts₂], by rwa [entries₂, counts₂],
        by rwa [entries₂], by rwa [slots₂], h6⟩
    · exact keeps₁.trans inv (keeps_same same) fun _ some_ => some_
  · exact ⟨rt₁, rfl, sound₁, keeps₁, unnamed, mineSlot, by rw [entries, if_pos rfl], shape⟩

end Steps
end QuickJSBridge.Atoms
