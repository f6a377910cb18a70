import QuickJSBridge.AtomReferences
import QuickJSBridge.NumericKeys

/- What the atoms of a table mean as property keys, and the operations that make names: each
   gives an atom that means what it was made of, and changes no name that is in use. -/
namespace QuickJSBridge.Atoms
open HashChains

/-- A property key of the language. A symbol is known by its allocation. -/
inductive Key where
  | index (n : Nat)
  | name (units : List UInt16)
  | globalSymbol (units : List UInt16)
  | symbol (p : Addr)
  deriving DecidableEq

def entryKey (p : Addr) (text : JSString) : AtomType → Key
  | .string => .name text.units
  | .globalSymbol => .globalSymbol text.units
  | .symbol => .symbol p
  | .privateName => .symbol p

/-- The key that an atom means. -/
def AtomRuntime.meaning (rt : AtomRuntime) (v : JSAtom) : Option Key :=
  if atomIsTaggedInt v then some (.index (atomToUInt32 v))
  else do
    let p ← rt.slot? v
    let (text, t) ← rt.entry p
    let t ← t
    some (entryKey p text t)

/-- The key that a text means: a number that fits is an index. -/
def textKey (text : JSString) : Key :=
  ((isNumString text).filter (· ≤ atomMaxInt)).elim (.name text.units) .index

def acquire (atomEnd : Nat) (named : JSAtom → Nat) (v : JSAtom) : JSAtom → Nat :=
  if atomIsConst atomEnd v then named else gain named v
def relinquish (atomEnd : Nat) (named : JSAtom → Nat) (v : JSAtom) : JSAtom → Nat :=
  if atomIsConst atomEnd v then named else lose named v

def giveUp (held : Addr → Nat) : Option Addr → Addr → Nat
  | some p => lose held p
  | none => held

/-- The table has a free slot, or can grow without an overflow of its size. -/
def Roomy (rt : AtomRuntime) : Prop := rt.atomFreeIndex ≠ 0 ∨ rt.atomSize * 3 < 2 ^ 31

def RoomFor (rt : AtomRuntime) (key : Key) : Prop := (∀ v, rt.meaning v ≠ some key) → Roomy rt

structure Valid (atomEnd : Nat) (held : Addr → Nat) (named : JSAtom → Nat) (rt : AtomRuntime) : Prop where
  sound : Sound held named rt
  size : rt.atomSize ≤ atomMax
  some_ : 0 < atomEnd
  consts : ∀ i < atomEnd, named i = 1
  globals : ∀ i p text, i < atomEnd → rt.slot? i = some p → rt.entry p ≠ some (text, some .globalSymbol)

section Operations
variable {atomEnd : Nat} {held held' : Addr → Nat} {named named' : JSAtom → Nat}
  {rt rt' : AtomRuntime} {i n : Nat} {v : JSAtom} {p q : Addr} {text text' : JSString} {t : AtomType}

theorem gain_self (counts : Nat → Nat) (i : Nat) : gain counts i i = counts i + 1 :=
  Function.update_self ..

theorem gain_of_ne (counts : Nat → Nat) {i j : Nat} (other : j ≠ i) : gain counts i j = counts j :=
  Function.update_of_ne other ..

theorem lose_self (counts : Nat → Nat) (i : Nat) : lose counts i i = counts i - 1 :=
  Function.update_self ..

theorem lose_of_ne (counts : Nat → Nat) {i j : Nat} (other : j ≠ i) : lose counts i j = counts j :=
  Function.update_of_ne other ..

theorem lose_gain (counts : Nat → Nat) (i : Nat) : lose (gain counts i) i = counts := by
  funext j
  by_cases same : j = i
  · rw [same, lose_self, gain_self, Nat.add_sub_cancel]
  · rw [lose_of_ne _ same, gain_of_ne _ same]

theorem gain_positive (counts : Nat → Nat) {i j : Nat} (positive : 0 < counts j) :
    0 < gain counts i j := by
  by_cases same : j = i
  · rw [same, gain_self]
    exact Nat.succ_pos _
  · rwa [gain_of_ne _ same]

theorem acquire_positive {j : Nat} (positive : 0 < named j) : 0 < acquire atomEnd named i j := by
  unfold acquire
  split
  · exact positive
  · exact gain_positive named positive

theorem kept_entry (sound : Sound held' named' rt') (keeps : Keeps named rt rt')
    (slot : rt.slot? i = some p) (used : 0 < named i) (here : rt.entry p = some (text, some t)) :
    rt'.slot? i = some p ∧ rt'.entry p = some (text, some t) := by
  have slot' := keeps.slots i p slot used
  refine ⟨slot', ?_⟩
  rcases keeps.texts p text _ here with freed | ⟨t', here', type⟩
  · obtain ⟨text', u, there, -⟩ := entry_slot sound.interned slot'
    rw [freed] at there
    cases there
  · rwa [type (Option.some_ne_none t)] at here'

theorem meaning_of (untagged : ¬ atomIsTaggedInt v) (slot : rt.slot? v = some p)
    (here : rt.entry p = some (text, some t)) : rt.meaning v = some (entryKey p text t) := by
  simp [AtomRuntime.meaning, untagged, slot, here]

theorem kept_meaning {names : JSAtom → Nat} (sound : Sound held named rt) (sound' : Sound held' named' rt')
    (keeps : Keeps names rt rt') (kept : atomIsTaggedInt v = true ∨ 0 < names v ∧ rt.slot? v ≠ none) :
    rt'.meaning v = rt.meaning v := by
  by_cases tagged : atomIsTaggedInt v
  · simp [AtomRuntime.meaning, tagged]
  · obtain ⟨used, there⟩ := kept.resolve_left tagged
    obtain ⟨p, slot⟩ := Option.ne_none_iff_exists'.1 there
    obtain ⟨text, t, here, -⟩ := entry_slot sound.interned slot
    obtain ⟨slot', here'⟩ := kept_entry sound' keeps slot used here
    rw [meaning_of tagged slot here, meaning_of tagged slot' here']

theorem held_entry (sound : Sound held named rt) (holds : 0 < held p) :
    ∃ text t, rt.entry p = some (text, t) := by
  obtain ⟨⟨text, t⟩, here⟩ := Option.ne_none_iff_exists'.1 (sound.counted.holds p holds)
  exact ⟨text, t, here⟩

theorem fresh_unheld (sound : Sound held named rt) : rt.entry rt.heapTop = none ∧ held rt.heapTop = 0 := by
  have unused : rt.entry rt.heapTop = none := entry_none.2 (by
    by_contra there
    exact Nat.lt_irrefl _ (sound.interned.below _ there))
  exact ⟨unused, Nat.eq_zero_of_not_pos fun holds => sound.counted.holds _ holds unused⟩

theorem sound_transfer (sound : Sound held named rt) (slot : rt.slot? i = some p)
    (others : ∀ q, q ≠ p → held' q = held q) (names : ∀ j, j ≠ i → named' j = named j)
    (total : held' p + named' i = held p + named i) (null : named' 0 = 1) :
    Sound held' named' rt := by
  obtain ⟨text, t, here, -⟩ := entry_slot sound.interned slot
  obtain ⟨s, known, -, type⟩ := string_of here
  have only : ∀ j, rt.slot? j = some p → j = i := fun j mine => slot_unique sound.interned mine slot
  have moved := sound_recount sound known (sound.counted.positive p (by
      rw [here]
      exact Option.some_ne_none _)) others
    (fun j other => names j fun same => other (same ▸ slot))
    (fun j mine => by rw [only j mine, total, sound.counted.atoms i p slot])
    (fun text' plain => by
      rw [here] at plain
      cases plain) null
  have same : rt.set p (some { s with refCount := rt.count p }) = rt := by
    rw [count_of known, AtomRuntime.set, ← known, Function.update_eq_self]
  rw [same] at moved
  exact moved.1

theorem sound_atomString {str : Option Addr} (sound : Sound held named rt)
    (holds : ∀ p, str = some p → 0 < held p)
    (known : ∀ p, str = some p → ∃ u, rt.entry p = some (text, u))
    (empty : str = none → text = ⟨true, [], by simp⟩) :
    ∃ p rt' held', atomString rt str = some (p, rt') ∧ Sound held' named rt' ∧ Keeps named rt rt' ∧
      rt'.entry p = some (text, none) ∧ 0 < held' p ∧ lose held' p = giveUp held str ∧
      (rt.atomFreeIndex ≠ 0 → rt'.atomFreeIndex ≠ 0) ∧
      ∀ q text' t, rt'.entry q = some (text', some t) → t ≠ .symbol → rt.entry q = some (text', some t) := by
  obtain ⟨unused, unheld⟩ := fresh_unheld sound
  cases str with
  | none =>
    obtain ⟨sound', keeps, here, noneNew, -⟩ := sound_alloc sound text
    rw [empty rfl] at sound' keeps here noneNew ⊢
    refine ⟨rt.heapTop, _, _, rfl, sound', keeps, here, ?_, lose_gain held _, noneNew.room, noneNew.entries⟩
    rw [gain_self]
    exact Nat.succ_pos _
  | some str =>
    obtain ⟨u, there⟩ := known str rfl
    have used := holds str rfl
    obtain ⟨s, string, text', type⟩ := string_of there
    unfold atomString
    simp only [string, Option.bind_eq_bind, Option.bind_some]
    by_cases plain : u = none
    · subst plain
      rw [if_pos type]
      exact ⟨str, rt, held, rfl, sound, keeps_same .refl, there, used, rfl, id, fun _ _ _ here _ => here⟩
    · rw [if_neg (by rwa [type])]
      -- the string is an atom already, so its text is copied
      obtain ⟨sound₁, keeps₁, here₁, noneNew₁, -⟩ := sound_alloc sound text
      have other : str ≠ rt.heapTop := by
        rintro rfl
        rw [unused] at there
        cases there
      obtain ⟨rt₂, frees, sound₂, keeps₂, noneNew₂⟩ := sound_drop sound₁ (p := str) (by
        rwa [gain_of_ne held other])
      have count : lose (gain held rt.heapTop) str rt.heapTop = 1 := by
        rw [lose_of_ne _ other.symm, gain_self, unheld]
      refine ⟨rt.heapTop, rt₂, lose (gain held rt.heapTop) str, ?_, sound₂, ?_, ?_, ?_, ?_, ?_, ?_⟩
      · rw [text']
        simp only [newString] at frees
        rw [show (rt.alloc ⟨1, text, 0, none, 0⟩) = (rt.heapTop, (rt.alloc ⟨1, text, 0, none, 0⟩).2) from rfl]
        simp only [frees, Option.bind_some]
      · exact keeps₁.trans sound.interned keeps₂ fun _ used => used
      · refine (noneNew₂.plain _ _ here₁).resolve_left fun freed => ?_
        exact sound₂.counted.holds rt.heapTop (by omega) freed
      · omega
      · funext q
        by_cases first : q = rt.heapTop
        · rw [first, lose_self, count]
          show 1 - 1 = lose held str rt.heapTop
          rw [lose_of_ne held other.symm, unheld]
        · rw [lose_of_ne _ first]
          show lose (gain held rt.heapTop) str q = lose held str q
          by_cases second : q = str
          · rw [second, lose_self, lose_self, gain_of_ne held other]
          · rw [lose_of_ne _ second, lose_of_ne _ second, gain_of_ne held first]
      · exact fun room => noneNew₂.room (noneNew₁.room room)
      · exact fun q text' t here other => noneNew₁.entries q text' t
          (noneNew₂.entries q text' t here other) other

theorem sound_room (sound : Sound held named rt) (roomy : Roomy rt) :
    ∃ rt', roomForAtom rt = some (some rt') ∧
      Sound held named rt' ∧ Keeps named rt rt' ∧ rt'.atomFreeIndex ≠ 0 ∧ NoneNew rt rt' := by
  unfold roomForAtom
  by_cases full : rt.atomFreeIndex = 0
  · rw [if_pos full]
    have small := roomy.resolve_left fun room => room full
    obtain ⟨grown, grows, big, spec⟩ := sound_grow sound full small
    cases grown with
    | none =>
      have above := big rfl
      simp only [atomMax] at above
      omega
    | some rt' =>
      obtain ⟨sound', keeps, room, noneNew⟩ := spec rt' rfl
      exact ⟨rt', grows, sound', keeps, room, noneNew⟩
  · rw [if_neg full]
    exact ⟨rt, rfl, sound, keeps_same .refl, full, fun _ _ _ here _ => here, fun _ _ there => there, id,
      fun _ _ here => .inr here⟩

theorem atomIsConst_eq : atomIsConst atomEnd n = true ↔ n < atomEnd ∨ 2147483648 ≤ n := by
  rw [atomIsConst, atomTagInt, Bool.or_eq_true, decide_eq_true_iff, decide_eq_true_iff]
  norm_num

theorem atomIsTaggedInt_eq : atomIsTaggedInt n = true ↔ 2147483648 ≤ n := by
  rw [atomIsTaggedInt, atomTagInt, decide_eq_true_iff]
  norm_num

theorem slot_const (valid : Valid atomEnd held named rt) (slot : rt.slot? i = some p) :
    atomIsConst atomEnd i = true ↔ i < atomEnd := by
  have inside := valid.sound.interned.inside i p (slot?_eq.1 slot)
  have size := valid.size
  rw [atomIsConst_eq]
  simp only [atomMax] at size
  omega

theorem slot_untagged (valid : Valid atomEnd held named rt) (slot : rt.slot? i = some p) :
    ¬ atomIsTaggedInt i := by
  have inside := valid.sound.interned.inside i p (slot?_eq.1 slot)
  have size := valid.size
  rw [atomIsTaggedInt_eq]
  simp only [atomMax] at size
  omega

theorem slot_bound (valid : Valid atomEnd held named rt) (slot : rt.slot? n = some p) : n < 2 ^ 32 := by
  have inside := valid.sound.interned.inside n p (slot?_eq.1 slot)
  have size := valid.size
  simp only [atomMax] at size
  omega

theorem valid_keeps {names : JSAtom → Nat} (valid : Valid atomEnd held named rt)
    (sound : Sound held' named' rt') (keeps : Keeps names rt rt') (kept : ∀ i < atomEnd, 0 < names i)
    (consts : ∀ i < atomEnd, named' i = named i) : Valid atomEnd held' named' rt' where
  sound := sound
  size := keeps.atomSize valid.size
  some_ := valid.some_
  consts := fun i below => (consts i below).trans (valid.consts i below)
  globals := fun i p text below slot here => by
    have used : 0 < named i := by
      rw [valid.consts i below]
      exact Nat.zero_lt_one
    rcases Nat.eq_zero_or_pos i with rfl | positive
    · -- the slot of JS_ATOM_NULL holds a symbol
      obtain ⟨s, null, symbol⟩ := sound.interned.null (by
        have inside := sound.interned.inside 0 p (slot?_eq.1 slot)
        omega)
      obtain ⟨q, mine, known⟩ := slot_of null
      rw [slot?_eq.2 mine, Option.some.injEq] at slot
      subst slot
      rw [entry_of known, symbol] at here
      cases here
    · obtain ⟨q, before⟩ := Option.ne_none_iff_exists'.1 (valid.sound.counted.names i positive used)
      obtain ⟨text', t, there, -⟩ := entry_slot valid.sound.interned before
      obtain ⟨slot', here'⟩ := kept_entry sound keeps before (kept i below) there
      rw [slot', Option.some.injEq] at slot
      subst slot
      rw [here'] at here
      obtain ⟨rfl, rfl⟩ : text' = text ∧ t = .globalSymbol := by simpa using here
      exact valid.globals i _ text' below before there

theorem valid_next (valid : Valid atomEnd held named rt) (sound : Sound held' named' rt')
    (keeps : Keeps named rt rt') (consts : ∀ i < atomEnd, named' i = named i) :
    Valid atomEnd held' named' rt' :=
  valid_keeps valid sound keeps (fun i below => by
    rw [valid.consts i below]
    exact Nat.zero_lt_one) consts

theorem addAtom_spec {str : Option Addr} {h : Nat} (valid : Valid atomEnd held named rt)
    (holds : ∀ p, str = some p → 0 < held p)
    (known : ∀ p, str = some p → ∃ u, rt.entry p = some (text, u))
    (empty : str = none → text = ⟨true, [], by simp⟩) (roomy : Roomy rt) (stored : t ≠ .privateName)
    (hash : t ≠ .symbol → h = hashString text t.number &&& atomHashMask)
    (fresh : t ≠ .symbol → ∀ q text', rt.entry q = some (text', some t) → text'.units ≠ text.units)
    (numeric : t = .string → ∀ n, isNumString text = some n → atomMaxInt < n) :
    ∃ i rt' p, addAtom rt str h t = some (i, rt') ∧ 0 < i ∧ atomIsConst atomEnd i = false ∧
      Sound (giveUp held str) (gain named i) rt' ∧ Keeps named rt rt' ∧
      rt'.slot? i = some p ∧ rt'.entry p = some (text, some t) ∧
      ∀ text' t', rt.entry p ≠ some (text', some t') := by
  obtain ⟨rt₁, grows, sound₁, keeps₁, room₁, noneNew₁⟩ := sound_room valid.sound roomy
  have known₁ : ∀ p, str = some p → ∃ u, rt₁.entry p = some (text, u) := by
    intro p same
    obtain ⟨u, here⟩ := known p same
    rcases keeps₁.texts p text u here with freed | ⟨u', here', -⟩
    · exact absurd freed (sound₁.counted.holds p (holds p same))
    · exact ⟨u', here'⟩
  obtain ⟨p, rt₂, held₂, copies, sound₂, keeps₂, here₂, used₂, given, room₂, new₂⟩ :=
    sound_atomString sound₁ holds known₁ empty
  obtain ⟨rt₃, registers, sound₃, keeps₃, unnamed, slot₃, here₃, -⟩ := sound_register sound₂
    (room₂ room₁) here₂ used₂ stored hash
    (fun other q text' there => fresh other q text'
      (noneNew₁.entries q text' t (new₂ q text' t there other) other)) numeric
  have keeps : Keeps named rt rt₃ :=
    (keeps₁.trans valid.sound.interned keeps₂ fun _ used => used).trans valid.sound.interned keeps₃
      fun _ used => used
  have named' : Function.update named rt₂.atomFreeIndex 1 = gain named rt₂.atomFreeIndex := by
    rw [gain, unnamed]
  rw [given, named'] at sound₃
  have above : ¬ rt₂.atomFreeIndex < atomEnd := by
    intro below
    rw [valid.consts _ below] at unnamed
    cases unnamed
  have inside := sound₃.interned.inside _ p (slot?_eq.1 slot₃)
  have size := keeps.atomSize valid.size
  simp only [atomMax] at size
  refine ⟨rt₂.atomFreeIndex, rt₃, p, ?_, Nat.pos_of_ne_zero (room₂ room₁), ?_, sound₃, keeps, slot₃, here₃,
    fun text' t' before => ?_⟩
  · unfold addAtom
    simp only [grows, Option.bind_eq_bind, Option.bind_some, copies, registers]
  · rw [← Bool.not_eq_true, atomIsConst_eq]
    omega
  · -- the string of the new atom was none before
    rcases (keeps₁.trans valid.sound.interned keeps₂ fun _ used => used).texts p text' _ before with
      freed | ⟨u, there, type⟩
    · rw [here₂] at freed
      cases freed
    · rw [type (Option.some_ne_none t'), here₂] at there
      cases there

theorem isAtom_eq {h : Nat} {units : List UInt16} :
    rt.isAtom h t units i = true ↔
      ∃ s, rt.atom? i = some s ∧ s.hash = h ∧ s.atomType = some t ∧ s.text.units = units := by
  unfold AtomRuntime.isAtom
  cases rt.atom? i with
  | none => simp
  | some s => simp [and_assoc]

/-- The search of `__JS_NewAtom` finds the atom of a text and a type if there is one. -/
theorem find_atom (inv : Interned rt) (type : t ≠ .symbol) (units : List UInt16) {h : Nat}
    (hash : h = units.foldl (fun h c => (h * 263 + c.toNat) % 2 ^ 32) t.number &&& atomHashMask) :
    ∃ r, walk rt.next (rt.isAtom h t units) rt.atomSize
        (link (rt.atomHash (h &&& (rt.atomHashSize - 1)))) = some r ∧
      (∀ i, r = some i → ∃ p text, rt.slot? i = some p ∧ rt.entry p = some (text, some t) ∧
        text.units = units ∧ 0 < i) ∧
      (r = none → ∀ p text, rt.entry p = some (text, some t) → text.units ≠ units) := by
  obtain ⟨r, walked, hits, misses⟩ := walk_filed inv.filed (rt.isAtom h t units)
    (fun j hashed => (hashed_inside inv hashed).1) (Nat.le_of_eq (List.length_range ..))
    (h &&& (rt.atomHashSize - 1))
  refine ⟨r, walked, fun i found => ?_, fun none p text here same => ?_⟩
  · obtain ⟨hashed, -, hit⟩ := hits i found
    obtain ⟨s, atom, -, type', units'⟩ := isAtom_eq.1 hit
    obtain ⟨p, slot, known⟩ := slot_of atom
    exact ⟨p, s.text, slot?_eq.2 slot, by rw [entry_of known, type'], units', (hashed_inside inv hashed).2⟩
  · obtain ⟨i, slot⟩ := slot_entry inv here
    obtain ⟨s, known, text', type'⟩ := string_of here
    have atom : rt.atom? i = some s := by rw [atom?_of (slot?_eq.1 slot), known]
    have hash' : s.hash = h := by
      rw [inv.hashes i s t atom type' type, hash, text', hashString, same]
    have missed := misses none i ⟨s, atom, by rw [type']; simpa using type⟩ (by
      rw [bucketOf_of atom, hash'])
    rw [isAtom_eq.2 ⟨s, atom, hash', type', by rw [text', same]⟩] at missed
    cases missed

/-- What an operation that makes a name does: it gives an atom that means the key, which is
    in use once more, and keeps the names that were in use. -/
structure Makes (atomEnd : Nat) (held : Addr → Nat) (named : JSAtom → Nat) (rt : AtomRuntime) (key : Key)
    (v : JSAtom) (rt' : AtomRuntime) : Prop where
  sound : Sound held (acquire atomEnd named v) rt'
  keeps : Keeps named rt rt'
  other : 0 < v
  bound : v < 2 ^ 32
  means : rt'.meaning v = some key

theorem acquire_const {j : Nat} (below : j < atomEnd) : acquire atomEnd named i j = named j := by
  unfold acquire
  split
  · rfl
  · next other =>
    refine gain_of_ne named ?_
    rintro rfl
    exact other (atomIsConst_eq.2 (.inl below))

theorem slot_positive (inv : Interned rt) (slot : rt.slot? i = some p)
    (here : rt.entry p = some (text, some t)) (type : t ≠ .symbol) : 0 < i := by
  obtain ⟨s, known, -, type'⟩ := string_of here
  exact (hashed_inside inv ⟨s, by rw [atom?_of (slot?_eq.1 slot), known], by
    rw [type']
    simpa using type⟩).2

/-- `__JS_NewAtom` on a text that is to be a string atom or a global symbol. -/
theorem newAtom_spec {u : Option AtomType} (valid : Valid atomEnd held named rt) (holds : 0 < held p)
    (known : rt.entry p = some (text, u))
    (roomy : (∀ q text', rt.entry q = some (text', some t) → text'.units ≠ text.units) → Roomy rt)
    (type : t ≠ .symbol) (stored : t ≠ .privateName)
    (numeric : t = .string → ∀ n, isNumString text = some n → atomMaxInt < n) :
    ∃ i rt' q text', jsNewAtom atomEnd rt (some p) t = some (i, rt') ∧ 0 < i ∧
      Sound (lose held p) (acquire atomEnd named i) rt' ∧ Keeps named rt rt' ∧
      rt'.slot? i = some q ∧ rt'.entry q = some (text', some t) ∧ text'.units = text.units := by
  have inv := valid.sound.interned
  obtain ⟨s, string, rfl, type'⟩ := string_of known
  have unfolds : jsNewAtom atomEnd rt (some p) t = internAtom atomEnd rt p t := by
    cases t with
    | string | globalSymbol => rfl
    | symbol => exact absurd rfl type
    | privateName => exact absurd rfl stored
  rw [unfolds, internAtom]
  simp only [string, Option.bind_eq_bind, Option.bind_some]
  by_cases same : s.atomType = some t
  · -- the string is the atom itself, and the caller's reference becomes the name
    rw [if_pos same]
    have here : rt.entry p = some (s.text, some t) := by rw [entry_of string, same]
    obtain ⟨i, slot⟩ := slot_entry inv here
    have positive := slot_positive inv slot here type
    have count := valid.sound.counted.atoms i p slot
    rw [count_of string] at count
    have only : ∀ j, rt.slot? j = some p → j = i := fun j mine => slot_unique inv mine slot
    simp only [getAtomIndex_eq inv (slot?_eq.1 slot), Option.bind_some]
    by_cases const : atomIsConst atomEnd i
    · rw [if_pos const]
      have once := valid.consts i ((slot_const valid slot).1 const)
      obtain ⟨rt', made⟩ : ∃ rt', rt' = rt.set p (some { s with refCount := s.refCount - 1 }) := ⟨_, rfl⟩
      rw [← made]
      obtain ⟨sound', keeps⟩ : Sound (lose held p) named rt' ∧ Keeps named rt rt' := made ▸ sound_recount
        valid.sound string (by omega) (fun q other => lose_of_ne held other) (fun _ _ => rfl)
        (fun j mine => by
          rw [only j mine, lose_self]
          omega)
        (fun text' plain => by
          rw [here] at plain
          cases plain) valid.sound.counted.null
      have used : 0 < named i := by omega
      obtain ⟨slot', here'⟩ := kept_entry sound' keeps slot used here
      exact ⟨i, rt', p, s.text, rfl, positive, by rwa [acquire, if_pos const], keeps, slot', here', rfl⟩
    · rw [if_neg const]
      refine ⟨i, rt, p, s.text, rfl, positive, ?_, keeps_same .refl, slot, here, rfl⟩
      rw [acquire, if_neg const]
      refine sound_transfer valid.sound slot (fun q other => lose_of_ne held other)
        (fun j other => gain_of_ne named other) ?_ ?_
      · rw [lose_self, gain_self]
        omega
      · rw [gain_of_ne named (Nat.ne_of_lt positive)]
        exact valid.sound.counted.null
  · rw [if_neg same]
    obtain ⟨r, walked, hits, misses⟩ := find_atom inv type s.text.units (h :=
      hashString s.text t.number &&& atomHashMask) rfl
    rw [walked, Option.bind_some]
    cases r with
    | none =>
      obtain ⟨i, rt', q, adds, positive, fresh, sound', keeps, slot, here, -⟩ := addAtom_spec valid
        (fun q (equal : some p = some q) => by
          cases equal
          exact holds)
        (fun q equal => by
          cases equal
          exact ⟨u, known⟩) (fun none => by cases none) (roomy (misses rfl)) stored (fun _ => rfl)
        (fun _ q text' there => misses rfl q text' there) numeric
      refine ⟨i, rt', q, s.text, adds, positive, ?_, keeps, slot, here, rfl⟩
      rwa [acquire, if_neg (by simp [fresh])]
    | some i =>
      obtain ⟨q, text', slot, here, units, positive⟩ := hits i rfl
      obtain ⟨a, atom, -, -⟩ := string_of here
      simp only [slot?_eq.1 slot, atom, Option.bind_some]
      have count := valid.sound.counted.atoms i q slot
      rw [count_of atom] at count
      have only : ∀ j, rt.slot? j = some q → j = i := fun j mine => slot_unique inv mine slot
      obtain ⟨rt₁, made, sound₁, keeps₁⟩ : ∃ rt₁, rt₁ = (if atomIsConst atomEnd i then rt
          else rt.set q (some { a with refCount := a.refCount + 1 })) ∧
          Sound held (acquire atomEnd named i) rt₁ ∧ Keeps named rt rt₁ := by
        refine ⟨_, rfl, ?_⟩
        unfold acquire
        by_cases const : atomIsConst atomEnd i
        · rw [if_pos const, if_pos const]
          exact ⟨valid.sound, keeps_same .refl⟩
        · rw [if_neg const, if_neg const]
          refine sound_recount valid.sound atom (Nat.succ_pos _) (fun _ _ => rfl)
            (fun j other => gain_of_ne named fun same => other (same ▸ slot)) (fun j mine => ?_)
            (fun text₀ plain => ?_) ?_
          · rw [only j mine, gain_self]
            omega
          · rw [here] at plain
            cases plain
          · rw [gain_of_ne named (Nat.ne_of_lt positive)]
            exact valid.sound.counted.null
      rw [← made]
      obtain ⟨rt₂, frees, sound₂, keeps₂, -⟩ := sound_drop sound₁ holds
      have used : 0 < acquire atomEnd named i i := by
        unfold acquire
        split
        · next const =>
          rw [valid.consts i ((slot_const valid slot).1 const)]
          exact Nat.zero_lt_one
        · rw [gain_self]
          exact Nat.succ_pos _
      have kept : rt₁.slot? i = some q ∧ rt₁.entry q = some (text', some t) := by
        have same₁ : SameAtoms rt rt₁ := by
          rw [made]
          split
          · exact .refl
          · exact (recount_same inv atom _).2.1
        rw [slot?_same same₁, entry_same same₁]
        exact ⟨slot, here⟩
      obtain ⟨slot₂, here₂⟩ := kept_entry sound₂ keeps₂ kept.1 used kept.2
      refine ⟨i, rt₂, q, text', ?_, positive, sound₂, ?_, slot₂, here₂, units⟩
      · simp only [frees, Option.bind_some]
      · exact keeps₁.trans inv keeps₂ fun _ used => acquire_positive used

theorem textKey_index (number : isNumString text = some n) (small : n ≤ atomMaxInt) :
    textKey text = .index n := by
  simp [textKey, number, Option.filter, small]

theorem textKey_name (large : ∀ n, isNumString text = some n → atomMaxInt < n) :
    textKey text = .name text.units := by
  cases number : isNumString text with
  | none => simp [textKey, number]
  | some n => simp [textKey, number, Option.filter, Nat.not_le.2 (large n number)]

theorem meaning_name {units : List UInt16} (means : rt.meaning v = some (.name units)) :
    ∃ p text, rt.slot? v = some p ∧ rt.entry p = some (text, some .string) ∧ text.units = units := by
  unfold AtomRuntime.meaning at means
  split at means
  · cases means
  · obtain ⟨p, slot, rest⟩ := Option.bind_eq_some_iff.1 means
    obtain ⟨⟨text, u⟩, here, rest⟩ := Option.bind_eq_some_iff.1 rest
    obtain ⟨t, rfl, key⟩ := Option.bind_eq_some_iff.1 rest
    cases t <;> cases key
    exact ⟨p, text, slot, here, rfl⟩

theorem atomFromUInt32_eq (small : n ≤ atomMaxInt) : atomFromUInt32 n = 2147483648 + n := by
  have below : n < 2 ^ 31 := by
    simp only [atomMaxInt, atomTagInt] at small
    omega
  rw [atomFromUInt32, atomTagInt, Nat.or_comm]
  have sum := Nat.two_pow_add_eq_or_of_lt below 1
  rw [Nat.mul_one] at sum
  rw [← sum]

theorem makes_index (sound : Sound held named rt) (keeps : Keeps named rt' rt) (small : n ≤ atomMaxInt) :
    Makes atomEnd held named rt' (.index n) (atomFromUInt32 n) rt := by
  have value := atomFromUInt32_eq small
  have tagged : atomIsTaggedInt (atomFromUInt32 n) = true := by
    rw [atomIsTaggedInt_eq, value]
    exact Nat.le_add_right _ _
  refine ⟨?_, keeps, ?_, ?_, ?_⟩
  · have const : atomIsConst atomEnd (atomFromUInt32 n) = true := by
      rw [atomIsConst_eq, value]
      exact .inr (Nat.le_add_right _ _)
    rwa [acquire, if_pos const]
  · rw [value]
    exact Nat.lt_of_lt_of_le (by norm_num) (Nat.le_add_right _ n)
  · rw [value]
    have below : n < 2 ^ 31 := Nat.lt_of_le_of_lt small (by decide)
    exact Nat.lt_of_lt_of_le (Nat.add_lt_add_left below _) (by norm_num)
  · have below : n < 2 ^ 31 := by
      simp only [atomMaxInt, atomTagInt] at small
      omega
    rw [AtomRuntime.meaning, if_pos tagged, atomToUInt32, value, atomTagInt]
    congr 2
    omega

theorem newAtomStr_spec {u : Option AtomType} (valid : Valid atomEnd held named rt) (holds : 0 < held p)
    (known : rt.entry p = some (text, u)) (roomy : RoomFor rt (textKey text)) :
    ∃ v rt', jsNewAtomStr atomEnd rt p = some (v, rt') ∧
      Makes atomEnd (lose held p) named rt (textKey text) v rt' := by
  have name : (∀ n, isNumString text = some n → atomMaxInt < n) → ∃ v rt',
      jsNewAtom atomEnd rt (some p) .string = some (v, rt') ∧
        Makes atomEnd (lose held p) named rt (textKey text) v rt' := by
    intro large
    obtain ⟨i, rt', q, text', made, positive, sound', keeps, slot, here, units⟩ :=
      newAtom_spec (t := .string) valid holds known (fun fresh => roomy fun v means => by
        rw [textKey_name large] at means
        obtain ⟨q, text', -, here, units⟩ := meaning_name means
        exact fresh q text' here units) (by simp) (by simp) fun _ => large
    have valid' := valid_next valid sound' keeps fun _ below => acquire_const below
    refine ⟨i, rt', made, sound', keeps, positive, slot_bound valid' slot, ?_⟩
    rw [meaning_of (slot_untagged valid' slot) slot here, textKey_name large, ← units]
    rfl
  obtain ⟨s, string, rfl, -⟩ := string_of known
  unfold jsNewAtomStr
  simp only [string, Option.bind_eq_bind, Option.bind_some]
  cases number : isNumString s.text with
  | none =>
    refine name fun n isNumber => ?_
    rw [number] at isNumber
    cases isNumber
  | some n =>
    by_cases small : n ≤ atomMaxInt
    · simp only [if_pos small]
      obtain ⟨rt', frees, sound', keeps, -⟩ := sound_drop valid.sound holds
      rw [frees, Option.bind_some, textKey_index number small]
      exact ⟨_, rt', rfl, makes_index sound' keeps small⟩
    · simp only [if_neg small]
      refine name fun m isNumber => ?_
      rw [number, Option.some.injEq] at isNumber
      omega

theorem dupString_spec (sound : Sound held named rt) (known : rt.entry p ≠ none) :
    ∃ rt', jsDupString rt p = some rt' ∧ Sound (gain held p) named rt' ∧ Keeps named rt rt' ∧
      rt'.entry = rt.entry ∧ rt'.slot? = rt.slot? ∧ (Roomy rt → Roomy rt') := by
  obtain ⟨⟨text, t⟩, here⟩ := Option.ne_none_iff_exists'.1 known
  obtain ⟨s, string, -, -⟩ := string_of here
  have same := (recount_same sound.interned string (s.refCount + 1)).2.1
  obtain ⟨rt', made⟩ : ∃ rt', rt' = rt.set p (some { s with refCount := s.refCount + 1 }) := ⟨_, rfl⟩
  rw [← made] at same
  obtain ⟨sound', keeps⟩ : Sound (gain held p) named rt' ∧ Keeps named rt rt' := made ▸ sound_recount
    sound string (Nat.succ_pos _) (fun q other => gain_of_ne held other) (fun _ _ => rfl)
    (fun i slot => by
      have count := sound.counted.atoms i p slot
      rw [count_of string] at count
      rw [gain_self]
      omega)
    (fun text plain => by
      have count := sound.counted.plain p text plain
      rw [count_of string] at count
      rw [gain_self, count]) sound.counted.null
  refine ⟨rt', ?_, sound', keeps, entry_same same, slot?_same same, fun roomy => ?_⟩
  · simp only [jsDupString, string, Option.bind_eq_bind, Option.bind_some, made]
  · rw [Roomy, same.atomFreeIndex, same.atomSize]
    exact roomy

theorem dupAtom_spec (valid : Valid atomEnd held named rt)
    (there : atomIsConst atomEnd v ∨ rt.slot? v ≠ none) :
    ∃ rt', jsDupAtom atomEnd rt v = some rt' ∧ Sound held (acquire atomEnd named v) rt' ∧
      Keeps named rt rt' ∧ SameAtoms rt rt' := by
  unfold jsDupAtom acquire
  by_cases const : atomIsConst atomEnd v
  · rw [if_pos const, if_pos const]
    exact ⟨rt, rfl, valid.sound, keeps_same .refl, .refl⟩
  · rw [if_neg const, if_neg const]
    have positive : 0 < v := by
      refine Nat.pos_of_ne_zero ?_
      rintro rfl
      exact const (atomIsConst_eq.2 (.inl valid.some_))
    obtain ⟨p, slot⟩ := Option.ne_none_iff_exists'.1 (there.resolve_left const)
    obtain ⟨text, t, here, -⟩ := entry_slot valid.sound.interned slot
    obtain ⟨s, string, -, -⟩ := string_of here
    have only : ∀ j, rt.slot? j = some p → j = v := fun j mine =>
      slot_unique valid.sound.interned mine slot
    have count := valid.sound.counted.atoms v p slot
    rw [count_of string] at count
    obtain ⟨rt', made⟩ : ∃ rt', rt' = rt.set p (some { s with refCount := s.refCount + 1 }) := ⟨_, rfl⟩
    obtain ⟨sound', keeps⟩ : Sound held (gain named v) rt' ∧ Keeps named rt rt' := made ▸ sound_recount
      valid.sound string (Nat.succ_pos _) (fun _ _ => rfl)
      (fun j other => gain_of_ne named fun same => other (same ▸ slot))
      (fun j mine => by
        rw [only j mine, gain_self]
        omega)
      (fun text' plain => by
        rw [here] at plain
        cases plain)
      (by
        rw [gain_of_ne named (Nat.ne_of_lt positive)]
        exact valid.sound.counted.null)
    simp only [slot?_eq.1 slot, string, Option.bind_eq_bind, Option.bind_some]
    exact ⟨rt', by rw [made], sound', keeps, made ▸ (recount_same valid.sound.interned string _).2.1⟩

theorem freeAtom_spec (valid : Valid atomEnd held named rt) (used : atomIsConst atomEnd v ∨ 0 < named v) :
    ∃ rt', jsFreeAtom atomEnd rt v = some rt' ∧ Sound held (relinquish atomEnd named v) rt' ∧
      Keeps (relinquish atomEnd named v) rt rt' := by
  unfold jsFreeAtom relinquish
  by_cases const : atomIsConst atomEnd v
  · rw [if_pos const, if_pos const]
    exact ⟨rt, rfl, valid.sound, keeps_same .refl⟩
  · rw [if_neg const, if_neg const]
    have positive : 0 < v := by
      refine Nat.pos_of_ne_zero ?_
      rintro rfl
      exact const (atomIsConst_eq.2 (.inl valid.some_))
    have named_ := used.resolve_left const
    obtain ⟨p, slot⟩ := Option.ne_none_iff_exists'.1 (valid.sound.counted.names v positive named_)
    obtain ⟨text, t, here, -⟩ := entry_slot valid.sound.interned slot
    obtain ⟨s, string, -, type⟩ := string_of here
    have only : ∀ j, rt.slot? j = some p → j = v := fun j mine =>
      slot_unique valid.sound.interned mine slot
    have count := valid.sound.counted.atoms v p slot
    rw [count_of string] at count
    obtain ⟨rt', frees, sound', keeps, -⟩ : ∃ rt', jsFreeString rt p = some rt' ∧
        Sound held (lose named v) rt' ∧ Keeps (lose named v) rt rt' ∧ NoneNew rt rt' := sound_release
      valid.sound string (fun _ _ => rfl) (fun j other => lose_of_ne named fun same => other (same ▸ slot))
      (fun j mine => by
        rw [only j mine, lose_self]
        omega)
      (fun text' plain => by
        rw [here] at plain
        cases plain)
      (by
        rw [lose_of_ne named (Nat.ne_of_lt positive)]
        exact valid.sound.counted.null)
    refine ⟨rt', ?_, sound', keeps⟩
    have isAtom : s.atomType ≠ none := by
      rw [type]
      exact Option.some_ne_none t
    unfold jsFreeString at frees
    simp only [string, Option.bind_eq_bind, Option.bind_some, if_neg isAtom] at frees
    simp only [slot?_eq.1 slot, string, Option.bind_eq_bind, Option.bind_some]
    by_cases more : 1 < s.refCount
    · rw [if_neg (Nat.not_le.2 more)] at frees
      rwa [if_pos more]
    · rw [if_pos (Nat.not_lt.1 more)] at frees
      rwa [if_neg more]

end Operations
end QuickJSBridge.Atoms
