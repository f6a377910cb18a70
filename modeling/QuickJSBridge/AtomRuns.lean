import QuickJSBridge.AtomStart

/- Runs of the atom table: code that holds values and names, makes, duplicates and frees them.
   In every run the names in use mean keys, one name for each key. -/
namespace QuickJSBridge.Atoms

/-- The table with the values and the names that code holds. -/
structure World where
  rt : AtomRuntime
  held : Addr → Nat
  named : JSAtom → Nat

inductive AtomCommand where
  | newString (text : JSString)
  | dupValue (p : Addr)
  | freeValue (p : Addr)
  | valueToAtom (x : KeyValue)
  | newAtomStr (p : Addr)
  | newAtomLen (str : List UInt8)
  | newAtomUInt32 (n : Nat)
  | dupAtom (v : JSAtom)
  | freeAtom (v : JSAtom)
  | newSymbol (p : Option Addr) (t : AtomType)
  | newSymbolFromAtom (v : JSAtom) (t : AtomType)
  | atomToValue (v : JSAtom)
  | atomToString (v : JSAtom)
  | atomIsArrayIndex (v : JSAtom)

/-- What a command gives. -/
inductive Outcome where
  | nothing
  | atom (v : JSAtom)
  | value (x : KeyValue)
  | index (n : Option Nat)

section Machine
variable (atomEnd : Nat) (emptyString : JSAtom)

def World.name (w : World) (held : Addr → Nat) (made : JSAtom × AtomRuntime) : Outcome × World :=
  (.atom made.1, ⟨made.2, held, acquire atomEnd w.named made.1⟩)

def World.give (w : World) (held : Addr → Nat) (made : Option KeyValue × AtomRuntime) : Outcome × World :=
  match made.1 with
  | some x => (.value x, ⟨made.2, hold held x, w.named⟩)
  | none => (.nothing, ⟨made.2, held, w.named⟩)

/-- A step of the machine; no result stands for a failed assertion or a read of freed memory. -/
def perform (w : World) : AtomCommand → Option (Outcome × World)
  | .newString text => some (.value (.string (newString w.rt text).1),
      ⟨(newString w.rt text).2, gain w.held (newString w.rt text).1, w.named⟩)
  | .dupValue p => (jsDupString w.rt p).map fun rt => (.nothing, ⟨rt, gain w.held p, w.named⟩)
  | .freeValue p => (jsFreeString w.rt p).map fun rt => (.nothing, ⟨rt, lose w.held p, w.named⟩)
  | .valueToAtom x => (jsValueToAtom atomEnd w.rt x).map (w.name atomEnd w.held)
  | .newAtomStr p => (jsNewAtomStr atomEnd w.rt p).map (w.name atomEnd (lose w.held p))
  | .newAtomLen str => (jsNewAtomLen atomEnd w.rt str).map (w.name atomEnd w.held)
  | .newAtomUInt32 n => (jsNewAtomUInt32 atomEnd w.rt n).map (w.name atomEnd w.held)
  | .dupAtom v => (jsDupAtom atomEnd w.rt v).map fun rt =>
      (.nothing, ⟨rt, w.held, acquire atomEnd w.named v⟩)
  | .freeAtom v => (jsFreeAtom atomEnd w.rt v).map fun rt =>
      (.nothing, ⟨rt, w.held, relinquish atomEnd w.named v⟩)
  | .newSymbol p t => (jsNewSymbol atomEnd w.rt p t).map (w.give (giveUp w.held p))
  | .newSymbolFromAtom v t => (jsNewSymbolFromAtom atomEnd w.rt v t).map (w.give w.held)
  | .atomToValue v => (jsAtomToValue emptyString w.rt v false).map fun made =>
      w.give w.held (some made.1, made.2)
  | .atomToString v => (jsAtomToValue emptyString w.rt v true).map fun made =>
      w.give w.held (some made.1, made.2)
  | .atomIsArrayIndex v => (jsAtomIsArrayIndex w.rt v).map fun index => (.index index, w)

/-- A name that code may use: a number, or an atom it holds. -/
def World.Uses (w : World) (v : JSAtom) : Prop := (2 ^ 31 ≤ v ∧ v < 2 ^ 32) ∨ (0 < v ∧ 0 < w.named v)

def World.Holds (w : World) : KeyValue → Prop
  | .int n => -2 ^ 31 ≤ n ∧ n < 2 ^ 31
  | .string p => 0 < w.held p
  | .symbol p => 0 < w.held p ∧ ∃ text t, w.rt.entry p = some (text, some t)

/-- What code may do that counts its references, and while the table can still grow. -/
def Permitted (w : World) : AtomCommand → Prop
  | .newString _ => True
  | .dupValue p => 0 < w.held p
  | .freeValue p => 0 < w.held p
  | .valueToAtom x => w.Holds x ∧ Roomy w.rt
  | .newAtomStr p => 0 < w.held p ∧ Roomy w.rt
  | .newAtomLen _ => Roomy w.rt
  | .newAtomUInt32 n => n < 2 ^ 32 ∧ Roomy w.rt
  | .dupAtom v => w.Uses v
  | .freeAtom v => w.Uses v
  | .newSymbol p t => (∀ q, p = some q → 0 < w.held q) ∧ t ≠ .string ∧ (t = .globalSymbol → p ≠ none) ∧
    Roomy w.rt
  | .newSymbolFromAtom v t => w.Uses v ∧ ¬ atomIsTaggedInt v ∧ t ≠ .string ∧ Roomy w.rt
  | .atomToValue v => w.Uses v
  | .atomToString v => w.Uses v
  | .atomIsArrayIndex v => w.Uses v

instance (w : World) (v : JSAtom) : Decidable (w.Uses v) :=
  inferInstanceAs (Decidable ((2 ^ 31 ≤ v ∧ v < 2 ^ 32) ∨ (0 < v ∧ 0 < w.named v)))

instance (w : World) : (x : KeyValue) → Decidable (w.Holds x)
  | .int n => inferInstanceAs (Decidable (-2 ^ 31 ≤ n ∧ n < 2 ^ 31))
  | .string p => inferInstanceAs (Decidable (0 < w.held p))
  | .symbol p => decidable_of_iff (0 < w.held p ∧ ((w.rt.entry p).bind Prod.snd).isSome) (by
      simp only [Option.isSome_iff_exists, Option.bind_eq_some_iff, Prod.exists, World.Holds]
      grind)

instance (rt : AtomRuntime) : Decidable (Roomy rt) :=
  inferInstanceAs (Decidable (rt.atomFreeIndex ≠ 0 ∨ rt.atomSize * 3 < 2 ^ 31))

instance (w : World) : (c : AtomCommand) → Decidable (Permitted w c)
  | .newString _ => isTrue trivial
  | .dupValue p => inferInstanceAs (Decidable (0 < w.held p))
  | .freeValue p => inferInstanceAs (Decidable (0 < w.held p))
  | .valueToAtom x => inferInstanceAs (Decidable (w.Holds x ∧ Roomy w.rt))
  | .newAtomStr p => inferInstanceAs (Decidable (0 < w.held p ∧ Roomy w.rt))
  | .newAtomLen _ => inferInstanceAs (Decidable (Roomy w.rt))
  | .newAtomUInt32 n => inferInstanceAs (Decidable (n < 2 ^ 32 ∧ Roomy w.rt))
  | .dupAtom v => inferInstanceAs (Decidable (w.Uses v))
  | .freeAtom v => inferInstanceAs (Decidable (w.Uses v))
  | .newSymbol p t => inferInstanceAs (Decidable ((∀ q, p = some q → 0 < w.held q) ∧ t ≠ .string ∧
      (t = .globalSymbol → p ≠ none) ∧ Roomy w.rt))
  | .newSymbolFromAtom v t => inferInstanceAs (Decidable
    (w.Uses v ∧ ¬ atomIsTaggedInt v ∧ t ≠ .string ∧ Roomy w.rt))
  | .atomToValue v => inferInstanceAs (Decidable (w.Uses v))
  | .atomToString v => inferInstanceAs (Decidable (w.Uses v))
  | .atomIsArrayIndex v => inferInstanceAs (Decidable (w.Uses v))

end Machine

/-- What a command promises of the table before, its outcome and the table after. -/
def Meets (before after : AtomRuntime) : AtomCommand → Outcome → Prop
  | .valueToAtom x, .atom v => 0 < v ∧ after.meaning v = before.valueKey x
  | .newAtomStr p, .atom v => 0 < v ∧ after.meaning v = before.valueKey (.string p)
  | .newAtomUInt32 n, .atom v => 0 < v ∧ after.meaning v = some (textKey (.ofUnits (decimalUnits n)))
  | .newAtomLen str, .atom v => v = 0 ∧ newStringLen str = none ∨ 0 < v
  | .newString text, .value (.string p) => after.entry p = some (text, none)
  | .newSymbol p t, .value (.symbol q) => ∃ text, after.entry q = some (text, some t.stored) ∧
      (∀ r, p = some r → ∃ text' u, before.entry r = some (text', u) ∧ text.units = text'.units) ∧
      (t ≠ .globalSymbol → ∀ text' u, before.entry q ≠ some (text', some u))
  | .newSymbolFromAtom v t, .value (.symbol q) => ∃ text, after.entry q = some (text, some t.stored) ∧
      before.atomUnits v = some text.units ∧
      (t ≠ .globalSymbol → ∀ text' u, before.entry q ≠ some (text', some u))
  | .atomToValue v, .value x => after.valueKey x = before.meaning v
  | .atomToString v, .value (.string p) => ∃ text, after.entry p = some text ∧
      before.atomUnits v = some text.1.units
  | .atomIsArrayIndex v, .index index => ∀ n, index = some n ↔
      n < 2 ^ 32 - 1 ∧ before.meaning v = some (textKey (.ofUnits (decimalUnits n)))
  | .dupValue _, .nothing | .freeValue _, .nothing | .dupAtom _, .nothing | .freeAtom _, .nothing => True
  | _, _ => False

/-- What a command gives may be used from then on. -/
def Usable (w : World) : Outcome → Prop
  | .atom v => v = 0 ∨ w.Uses v
  | .value x => w.Holds x
  | _ => True

/-- The invariant of a run; no value holds the string of `JS_ATOM_NULL`. -/
structure Running (predefined : List (JSString × AtomType)) (w : World) : Prop where
  valid : Valid (predefined.length + 1) w.held w.named w.rt
  null : ∃ p, w.rt.slot? 0 = some p ∧ w.held p = 0
  numbered : ∀ i text t, predefined[i]? = some (text, t) →
    ∃ p, w.rt.slot? (i + 1) = some p ∧ w.rt.entry p = some (text, some t.stored)

/-- The predefined atom after `e` is the empty string. -/
def EmptyAt (predefined : List (JSString × AtomType)) (e : Nat) : Prop :=
  ∃ text, predefined[e]? = some (text, .string) ∧ text.units = []

section Steps
variable {predefined : List (JSString × AtomType)} {e : Nat} {w w' : World} {c : AtomCommand} {o : Outcome}
  {held' : Addr → Nat} {named' names : JSAtom → Nat} {rt' : AtomRuntime} {v : JSAtom} {p : Addr} {key : Key}

theorem running_next (running : Running predefined w) (sound : Sound held' named' rt')
    (keeps : Keeps names w.rt rt') (kept : ∀ i < predefined.length + 1, 0 < names i)
    (consts : ∀ i < predefined.length + 1, named' i = w.named i)
    (null : ∀ p, w.rt.slot? 0 = some p → held' p = 0) : Running predefined ⟨rt', held', named'⟩ := by
  refine ⟨valid_keeps running.valid sound keeps kept consts, ?_, fun i text t there => ?_⟩
  · obtain ⟨p, slot, -⟩ := running.null
    exact ⟨p, keeps.slots 0 p slot (kept 0 (Nat.succ_pos _)), null p slot⟩
  · obtain ⟨p, slot, here⟩ := running.numbered i text t there
    have within := (List.getElem?_eq_some_iff.1 there).1
    obtain ⟨slot', here'⟩ := kept_entry sound keeps slot (kept (i + 1) (by omega)) here
    exact ⟨p, slot', here'⟩

theorem consts_used (running : Running predefined w) (i : Nat) (below : i < predefined.length + 1) :
    0 < w.named i := by
  rw [running.valid.consts i below]
  exact Nat.zero_lt_one

theorem uses_slot (running : Running predefined w) (uses : w.Uses v) :
    atomIsTaggedInt v = true ∨ 0 < w.named v ∧ w.rt.slot? v ≠ none := by
  rcases uses with ⟨tagged, -⟩ | ⟨positive, used⟩
  · refine .inl (atomIsTaggedInt_eq.2 ?_)
    norm_num at tagged
    exact tagged
  · exact .inr ⟨used, running.valid.sound.counted.names v positive used⟩

theorem uses_const (running : Running predefined w) (uses : w.Uses v) :
    atomIsConst (predefined.length + 1) v = true ∨ w.rt.slot? v ≠ none := by
  rcases uses_slot running uses with tagged | ⟨-, there⟩
  · exact .inl (atomIsConst_eq.2 (.inr (atomIsTaggedInt_eq.1 tagged)))
  · exact .inr there

theorem uses_positive (uses : w.Uses v) : 0 < v := by
  rcases uses with ⟨tagged, -⟩ | ⟨positive, -⟩
  · exact Nat.lt_of_lt_of_le (by norm_num) tagged
  · exact positive

theorem uses_meaning (running : Running predefined w) (uses : w.Uses v) : ∃ key, w.rt.meaning v = some key := by
  by_cases tagged : atomIsTaggedInt v
  · exact ⟨_, by rw [AtomRuntime.meaning, if_pos tagged]⟩
  · obtain ⟨-, there⟩ := (uses_slot running uses).resolve_left tagged
    obtain ⟨p, slot⟩ := Option.ne_none_iff_exists'.1 there
    obtain ⟨text, t, here, -⟩ := entry_slot running.valid.sound.interned slot
    exact ⟨_, meaning_of tagged slot here⟩

theorem uses_kept (running : Running predefined w) (sound : Sound held' named' rt')
    (keeps : Keeps names w.rt rt') (kept : w.named v ≠ 0 → 0 < names v ∨ named' v = 0)
    (uses : w.Uses v) (uses' : World.Uses ⟨rt', held', named'⟩ v) : rt'.meaning v = w.rt.meaning v := by
  refine kept_meaning running.valid.sound sound keeps ?_
  rcases uses_slot running uses with tagged | ⟨used, there⟩
  · exact .inl tagged
  · rcases uses' with ⟨tagged, -⟩ | ⟨-, used'⟩
    · refine .inl (atomIsTaggedInt_eq.2 ?_)
      norm_num at tagged
      exact tagged
    · refine .inr ⟨(kept (Nat.ne_of_gt used)).resolve_right fun none => ?_, there⟩
      simp only at used'
      omega

structure Done (predefined : List (JSString × AtomType)) (w : World) (c : AtomCommand) (o : Outcome)
    (w' : World) : Prop where
  running : Running predefined w'
  meets : Meets w.rt w'.rt c o
  usable : Usable w' o
  kept : ∀ v, w.Uses v → w'.Uses v → w'.rt.meaning v = w.rt.meaning v

theorem null_lose (running : Running predefined w) (q : Addr) :
    ∀ p, w.rt.slot? 0 = some p → lose w.held q p = 0 := by
  intro p slot
  obtain ⟨r, slot', unheld⟩ := running.null
  rw [slot', Option.some.injEq] at slot
  subst slot
  by_cases same : r = q
  · rw [same, lose_self, ← same, unheld]
  · rw [lose_of_ne _ same, unheld]

theorem null_gain (running : Running predefined w) {q : Addr} (other : w.rt.slot? 0 ≠ some q) :
    ∀ p, w.rt.slot? 0 = some p → gain w.held q p = 0 := by
  intro p slot
  obtain ⟨r, slot', unheld⟩ := running.null
  rw [slot', Option.some.injEq] at slot
  subst slot
  rw [gain_of_ne, unheld]
  rintro rfl
  exact other slot'

theorem null_held (running : Running predefined w) : ∀ p, w.rt.slot? 0 = some p → w.held p = 0 := by
  intro p slot
  obtain ⟨r, slot', unheld⟩ := running.null
  rw [slot', Option.some.injEq] at slot
  subst slot
  exact unheld

theorem held_real (running : Running predefined w) (holds : 0 < w.held p) : w.rt.slot? 0 ≠ some p := by
  intro slot
  have unheld := null_held running p slot
  omega

theorem makes_done (running : Running predefined w)
    (made : Makes (predefined.length + 1) held' w.named w.rt key v rt')
    (null : ∀ p, w.rt.slot? 0 = some p → held' p = 0)
    (meets : 0 < v → rt'.meaning v = some key → Meets w.rt rt' c (.atom v)) :
    Done predefined w c (.atom v) ⟨rt', held', acquire (predefined.length + 1) w.named v⟩ := by
  have running' := running_next running made.sound made.keeps (consts_used running)
    (fun i below => acquire_const below) null
  refine ⟨running', meets made.other made.means, .inr ?_, fun u uses uses' => ?_⟩
  · by_cases tagged : atomIsTaggedInt v
    · refine .inl ⟨?_, made.bound⟩
      have above := atomIsTaggedInt_eq.1 tagged
      norm_num
      exact above
    · refine .inr ⟨made.other, ?_⟩
      show 0 < acquire (predefined.length + 1) w.named v v
      unfold acquire
      split
      · next const =>
        refine consts_used running v ((atomIsConst_eq.1 const).resolve_right fun above => ?_)
        exact tagged (atomIsTaggedInt_eq.2 above)
      · rw [gain_self]
        exact Nat.succ_pos _
  · exact uses_kept running made.sound made.keeps (fun used => .inl (Nat.pos_of_ne_zero used)) uses uses'

theorem gives_done (running : Running predefined w) (sound : Sound held' w.named rt')
    (keeps : Keeps w.named w.rt rt') (null : ∀ p, w.rt.slot? 0 = some p → held' p = 0)
    (meets : Meets w.rt rt' c o) (usable : Usable ⟨rt', held', w.named⟩ o) :
    Done predefined w c o ⟨rt', held', w.named⟩ :=
  ⟨running_next running sound keeps (consts_used running) (fun _ _ => rfl) null, meets, usable,
    fun _ uses uses' => uses_kept running sound keeps (fun used => .inl (Nat.pos_of_ne_zero used)) uses uses'⟩

theorem dupValue_done (running : Running predefined w) (holds : 0 < w.held p) :
    ∃ w', perform (predefined.length + 1) e w (.dupValue p) = some (.nothing, w') ∧
      Done predefined w (.dupValue p) .nothing w' := by
  obtain ⟨rt', dups, sound, keeps, -⟩ := dupString_spec running.valid.sound
    (running.valid.sound.counted.holds p holds)
  exact ⟨_, by simp only [perform, dups, Option.map_some], gives_done running sound keeps
    (null_gain running (held_real running holds)) trivial trivial⟩

theorem freeValue_done (running : Running predefined w) (holds : 0 < w.held p) :
    ∃ w', perform (predefined.length + 1) e w (.freeValue p) = some (.nothing, w') ∧
      Done predefined w (.freeValue p) .nothing w' := by
  obtain ⟨rt', frees, sound, keeps, -⟩ := sound_drop running.valid.sound holds
  exact ⟨_, by simp only [perform, frees, Option.map_some], gives_done running sound keeps
    (null_lose running p) trivial trivial⟩

theorem newString_done (running : Running predefined w) (text : JSString) :
    ∃ o w', perform (predefined.length + 1) e w (.newString text) = some (o, w') ∧
      Done predefined w (.newString text) o w' := by
  obtain ⟨sound, keeps, here, -, -⟩ := sound_alloc running.valid.sound text
  refine ⟨_, _, rfl, gives_done running sound keeps (fun p slot => ?_) here ?_⟩
  · have other := slot_below running.valid.sound slot
    show gain w.held w.rt.heapTop p = 0
    rw [gain_of_ne _ other]
    exact null_held running p slot
  · show 0 < gain w.held w.rt.heapTop w.rt.heapTop
    rw [gain_self]
    exact Nat.succ_pos _

theorem holds_key (running : Running predefined w) {x : KeyValue} (holds : w.Holds x) :
    ∃ key, w.rt.valueKey x = some key := by
  cases x with
  | int n => exact ⟨_, rfl⟩
  | string p =>
    obtain ⟨text, t, here⟩ := held_entry running.valid.sound holds
    exact ⟨_, valueKey_string here⟩
  | symbol p =>
    obtain ⟨-, text, t, here⟩ := holds
    exact ⟨_, valueKey_symbol here⟩

theorem valueToAtom_done {x : KeyValue} (running : Running predefined w) (holds : w.Holds x)
    (roomy : ∀ key, w.rt.valueKey x = some key → RoomFor w.rt key) :
    ∃ o w', perform (predefined.length + 1) e w (.valueToAtom x) = some (o, w') ∧
      Done predefined w (.valueToAtom x) o w' := by
  obtain ⟨key, means⟩ := holds_key running holds
  obtain ⟨v, rt', makes, made⟩ := valueToAtom_spec running.valid (fun p same => by
      rcases same with rfl | rfl
      · exact holds
      · exact holds.1) means (fun p same => by
      subst same
      exact held_real running holds.1) (fun n same => by
      subst same
      exact holds.2) (roomy key means)
  refine ⟨_, _, by simp only [perform, makes, Option.map_some]; rfl, makes_done running made (null_held running)
    fun positive means' => ⟨positive, means'.trans means.symm⟩⟩

theorem newAtomStr_done (running : Running predefined w) (holds : 0 < w.held p) (roomy : Roomy w.rt) :
    ∃ o w', perform (predefined.length + 1) e w (.newAtomStr p) = some (o, w') ∧
      Done predefined w (.newAtomStr p) o w' := by
  obtain ⟨text, u, here⟩ := held_entry running.valid.sound holds
  obtain ⟨v, rt', makes, made⟩ := newAtomStr_spec running.valid holds here fun _ => roomy
  exact ⟨_, _, by simp only [perform, makes, Option.map_some]; rfl, makes_done running made
    (null_lose running p)
    fun positive means => ⟨positive, means.trans (valueKey_string here).symm⟩⟩

theorem newAtomUInt32_done {n : Nat} (running : Running predefined w) (fits : n < 2 ^ 32) (roomy : Roomy w.rt) :
    ∃ o w', perform (predefined.length + 1) e w (.newAtomUInt32 n) = some (o, w') ∧
      Done predefined w (.newAtomUInt32 n) o w' := by
  obtain ⟨v, rt', makes, made⟩ := newAtomUInt32_spec running.valid roomy fits
  exact ⟨_, _, by simp only [perform, makes, Option.map_some]; rfl, makes_done running made (null_held running)
    fun positive means => ⟨positive, means⟩⟩

theorem newAtomLen_done {str : List UInt8} (running : Running predefined w) (roomy : Roomy w.rt) :
    ∃ o w', perform (predefined.length + 1) e w (.newAtomLen str) = some (o, w') ∧
      Done predefined w (.newAtomLen str) o w' := by
  cases decoded : newStringLen str with
  | some text =>
    obtain ⟨v, rt', key, makes, made, -⟩ := newAtomLen_spec running.valid roomy decoded
    exact ⟨_, _, by simp only [perform, makes, Option.map_some]; rfl,
      makes_done running made (null_held running) fun positive _ => .inr positive⟩
  | none =>
    -- the text is too long for a string, but its bytes may be looked for
    have failed : findAtomLen (predefined.length + 1) w.rt str = some (0, w.rt) →
        ∃ o w', perform (predefined.length + 1) e w (.newAtomLen str) = some (o, w') ∧
          Done predefined w (.newAtomLen str) o w' := by
      intro missed
      have makes : jsNewAtomLen (predefined.length + 1) w.rt str = some (0, w.rt) := by
        unfold jsNewAtomLen
        simp only [missed, Option.bind_eq_bind, Option.bind_some, ne_eq, not_true_eq_false, if_false, decoded]
      have same : acquire (predefined.length + 1) w.named 0 = w.named := by
        rw [acquire, if_pos (atomIsConst_eq.2 (.inl (Nat.succ_pos _)))]
      refine ⟨.atom 0, w, ?_, running, .inl ⟨rfl, decoded⟩, .inl rfl, fun _ _ _ => rfl⟩
      simp only [perform, makes, Option.map_some, World.name, same]
    unfold findAtomLen at failed
    by_cases digit : (str.head?.map isDigit).getD false = true
    · exact failed (if_pos digit)
    · rw [if_neg digit] at failed
      rcases findAtom_spec running.valid str with ⟨i, p, text', rt', finds, -, -, -, made⟩ | ⟨missed, -⟩
      · have makes : jsNewAtomLen (predefined.length + 1) w.rt str = some (i, rt') := by
          unfold jsNewAtomLen findAtomLen
          simp only [if_neg digit, finds, Option.bind_eq_bind, Option.bind_some, ne_eq,
            Nat.ne_of_gt made.other, not_false_eq_true, if_true]
        exact ⟨_, _, by simp only [perform, makes, Option.map_some]; rfl,
          makes_done running made (null_held running) fun positive _ => .inr positive⟩
      · exact failed missed

theorem dupAtom_done (running : Running predefined w) (uses : w.Uses v) :
    ∃ w', perform (predefined.length + 1) e w (.dupAtom v) = some (.nothing, w') ∧
      Done predefined w (.dupAtom v) .nothing w' := by
  obtain ⟨rt', dups, sound, keeps, -⟩ := dupAtom_spec running.valid (uses_const running uses)
  refine ⟨⟨rt', w.held, acquire (predefined.length + 1) w.named v⟩,
    by simp only [perform, dups, Option.map_some], ?_, trivial, trivial, fun u before after => ?_⟩
  · exact running_next running sound keeps (consts_used running) (fun i below => acquire_const below)
      (null_held running)
  · exact uses_kept running sound keeps (fun used => .inl (Nat.pos_of_ne_zero used)) before after

theorem freeAtom_done (running : Running predefined w) (uses : w.Uses v) :
    ∃ w', perform (predefined.length + 1) e w (.freeAtom v) = some (.nothing, w') ∧
      Done predefined w (.freeAtom v) .nothing w' := by
  obtain ⟨rt', frees, sound, keeps⟩ := freeAtom_spec running.valid (by
    by_cases const : atomIsConst (predefined.length + 1) v
    · exact .inl const
    · refine .inr ((uses_slot running uses).resolve_left fun tagged => ?_).1
      exact const (atomIsConst_eq.2 (.inr (atomIsTaggedInt_eq.1 tagged))))
  have consts : ∀ i < predefined.length + 1, relinquish (predefined.length + 1) w.named v i = w.named i := by
    intro i below
    unfold relinquish
    split
    · rfl
    · next other =>
      refine lose_of_ne _ ?_
      rintro rfl
      exact other (atomIsConst_eq.2 (.inl below))
  refine ⟨⟨rt', w.held, relinquish (predefined.length + 1) w.named v⟩,
    by simp only [perform, frees, Option.map_some], ?_, trivial, trivial, fun u before after => ?_⟩
  · exact running_next running sound keeps (fun i below => by
      rw [consts i below]
      exact consts_used running i below) consts (null_held running)
  · exact uses_kept running sound keeps (fun _ => by omega) before after

theorem symbol_real {t : AtomType} {text : JSString} (running : Running predefined w)
    (sound : Sound held' w.named rt') (keeps : Keeps w.named w.rt rt')
    (there : rt'.entry p = some (text, some t.stored))
    (new : t ≠ .globalSymbol → ∀ text' u, w.rt.entry p ≠ some (text', some u)) : w.rt.slot? 0 ≠ some p := by
  intro slot
  have inv := running.valid.sound.interned
  have inside := inv.inside 0 p (slot?_eq.1 slot)
  obtain ⟨s, atom, symbol⟩ := inv.null inside
  obtain ⟨q, mine, string⟩ := slot_of atom
  rw [slot?_eq.2 mine, Option.some.injEq] at slot
  subst slot
  have here : w.rt.entry q = some (s.text, some .symbol) := by rw [entry_of string, symbol]
  by_cases global : t = .globalSymbol
  · subst global
    have kept := (kept_entry sound keeps (slot?_eq.2 mine) (consts_used running 0 (Nat.succ_pos _)) here).2
    rw [there, Option.some.injEq, Prod.mk.injEq] at kept
    cases kept.2
  · exact new global _ _ here

theorem newSymbol_done {r : Option Addr} {t : AtomType} (running : Running predefined w)
    (holds : ∀ q, r = some q → 0 < w.held q) (type : t ≠ .string) (global : t = .globalSymbol → r ≠ none)
    (roomy : Roomy w.rt) : ∃ o w', perform (predefined.length + 1) e w (.newSymbol r t) = some (o, w') ∧
      Done predefined w (.newSymbol r t) o w' := by
  obtain ⟨text, known, empty⟩ : ∃ text : JSString, (∀ p, r = some p → ∃ u, w.rt.entry p = some (text, u)) ∧
      (r = none → text = ⟨true, [], by simp⟩) := by
    cases r with
    | none =>
      refine ⟨⟨true, [], by simp⟩, fun p same => ?_, fun _ => rfl⟩
      cases same
    | some p =>
      obtain ⟨text, u, here⟩ := held_entry running.valid.sound (holds p rfl)
      refine ⟨text, fun q same => ?_, fun none => by cases none⟩
      cases same
      exact ⟨u, here⟩
  obtain ⟨q, rt', text', makes, sound, keeps, there, units, new⟩ :=
    newSymbol_spec running.valid holds known empty roomy type global
  have real := symbol_real running sound keeps there new
  refine ⟨.value (.symbol q), ⟨rt', gain (giveUp w.held r) q, w.named⟩, ?_,
    gives_done running sound keeps (fun p slot => ?_) ⟨text', there, fun p same => ?_, new⟩
      ⟨?_, text', _, there⟩⟩
  · simp only [perform, makes, Option.map_some, World.give, hold]
  · rw [gain_of_ne]
    · cases r with
      | none => exact null_held running p slot
      | some r => exact null_lose running r p slot
    · rintro rfl
      exact real slot
  · obtain ⟨u, here⟩ := known p same
    exact ⟨text, u, here, units⟩
  · show 0 < gain (giveUp w.held r) q q
    rw [gain_self]
    exact Nat.succ_pos _

theorem newSymbolFromAtom_done {t : AtomType} (running : Running predefined w) (uses : w.Uses v)
    (untagged : ¬ atomIsTaggedInt v) (type : t ≠ .string) (roomy : Roomy w.rt) :
    ∃ o w', perform (predefined.length + 1) e w (.newSymbolFromAtom v t) = some (o, w') ∧
      Done predefined w (.newSymbolFromAtom v t) o w' := by
  obtain ⟨p, slot⟩ := Option.ne_none_iff_exists'.1 ((uses_slot running uses).resolve_left untagged).2
  obtain ⟨text, u, here, -⟩ := entry_slot running.valid.sound.interned slot
  obtain ⟨q, rt', text', makes, sound, keeps, there, units, new⟩ :=
    newSymbolFromAtom_spec running.valid slot ⟨some u, here⟩ roomy type
  have real := symbol_real running sound keeps there new
  refine ⟨.value (.symbol q), ⟨rt', gain w.held q, w.named⟩, ?_,
    gives_done running sound keeps (null_gain running real) ⟨text', there, ?_, new⟩ ⟨?_, text', _, there⟩⟩
  · simp only [perform, makes, Option.map_some, World.give, hold]
  · rw [AtomRuntime.atomUnits, if_neg untagged, slot, Option.bind_some, here, Option.map_some, units]
  · show 0 < gain w.held q q
    rw [gain_self]
    exact Nat.succ_pos _

theorem hold_null (running : Running predefined w) {x : KeyValue}
    (apart : ∀ p, w.rt.slot? 0 = some p → hold w.held x p = w.held p) :
    ∀ p, w.rt.slot? 0 = some p → hold w.held x p = 0 := fun p slot =>
  (apart p slot).trans (null_held running p slot)

theorem atomToValue_done (running : Running predefined w) (uses : w.Uses v) :
    ∃ o w', perform (predefined.length + 1) e w (.atomToValue v) = some (o, w') ∧
      Done predefined w (.atomToValue v) o w' := by
  obtain ⟨key, means⟩ := uses_meaning running uses
  obtain ⟨x, rt', gives, sound, keeps, same, other, apart⟩ := atomToValue_spec (e := e) running.valid means
  refine ⟨.value x, ⟨rt', hold w.held x, w.named⟩, ?_, gives_done running sound keeps
    (hold_null running (apart (uses_positive uses))) (same.trans means.symm) ?_⟩
  · simp only [perform, gives, Option.map_some, World.give]
  · cases x with
    | int n => exact absurd rfl (other n)
    | string p =>
      show 0 < gain w.held p p
      rw [gain_self]
      exact Nat.succ_pos _
    | symbol p =>
      refine ⟨?_, ?_⟩
      · show 0 < gain w.held p p
        rw [gain_self]
        exact Nat.succ_pos _
      · show ∃ text t, rt'.entry p = some (text, some t)
        cases here : rt'.entry p with
        | none => simp [AtomRuntime.valueKey, here] at same
        | some entry =>
          obtain ⟨text, u⟩ := entry
          cases u with
          | none => simp [AtomRuntime.valueKey, here] at same
          | some t => exact ⟨text, t, rfl⟩

theorem atomToString_done (running : Running predefined w) (empty : EmptyAt predefined e) (uses : w.Uses v) :
    ∃ o w', perform (predefined.length + 1) (e + 1) w (.atomToString v) = some (o, w') ∧
      Done predefined w (.atomToString v) o w' := by
  obtain ⟨units, text⟩ : ∃ units, w.rt.atomUnits v = some units := by
    unfold AtomRuntime.atomUnits
    by_cases tagged : atomIsTaggedInt v
    · exact ⟨_, if_pos tagged⟩
    · obtain ⟨p, slot⟩ := Option.ne_none_iff_exists'.1 ((uses_slot running uses).resolve_left tagged).2
      obtain ⟨text, u, here, -⟩ := entry_slot running.valid.sound.interned slot
      exact ⟨text.units, by rw [if_neg tagged, slot, Option.bind_some, here, Option.map_some]⟩
  have blank : w.rt.meaning (e + 1) = some (.name []) := by
    obtain ⟨text, there, none⟩ := empty
    obtain ⟨p, slot, here⟩ := running.numbered e text .string there
    have here' : w.rt.entry p = some (text, some .string) := here
    rw [meaning_of (slot_untagged running.valid slot) slot here', entryKey, none]
  obtain ⟨p, rt', text', gives, sound, keeps, there, same, apart⟩ := atomToString_spec running.valid text blank
  refine ⟨.value (.string p), ⟨rt', gain w.held p, w.named⟩, ?_, gives_done running sound keeps
    (hold_null (x := .string p) running (apart (uses_positive uses) (Nat.succ_pos e)))
    ⟨text', there, by rw [text, same]⟩ ?_⟩
  · simp only [perform, gives, Option.map_some, World.give, hold]
  · show 0 < gain w.held p p
    rw [gain_self]
    exact Nat.succ_pos _

theorem atomIsArrayIndex_done (running : Running predefined w) (uses : w.Uses v) :
    ∃ o w', perform (predefined.length + 1) e w (.atomIsArrayIndex v) = some (o, w') ∧
      Done predefined w (.atomIsArrayIndex v) o w' := by
  obtain ⟨key, means⟩ := uses_meaning running uses
  obtain ⟨index, finds, spec⟩ := isArrayIndex_spec running.valid means
  refine ⟨.index index, w, by simp only [perform, finds, Option.map_some], running, fun n => ?_, trivial,
    fun _ _ _ => rfl⟩
  rw [spec, means, Option.some.injEq]

theorem perform_done (running : Running predefined w) (empty : EmptyAt predefined e)
    (permitted : Permitted w c) :
    ∃ o w', perform (predefined.length + 1) (e + 1) w c = some (o, w') ∧ Done predefined w c o w' := by
  cases c with
  | newString text => exact newString_done running text
  | dupValue p => exact ⟨_, dupValue_done running permitted⟩
  | freeValue p => exact ⟨_, freeValue_done running permitted⟩
  | valueToAtom x => exact valueToAtom_done running permitted.1 fun _ _ _ => permitted.2
  | newAtomStr p => exact newAtomStr_done running permitted.1 permitted.2
  | newAtomLen str => exact newAtomLen_done running permitted
  | newAtomUInt32 n => exact newAtomUInt32_done running permitted.1 permitted.2
  | dupAtom v => exact ⟨_, dupAtom_done running permitted⟩
  | freeAtom v => exact ⟨_, freeAtom_done running permitted⟩
  | newSymbol p t => exact newSymbol_done running permitted.1 permitted.2.1 permitted.2.2.1 permitted.2.2.2
  | newSymbolFromAtom v t =>
    exact newSymbolFromAtom_done running permitted.1 permitted.2.1 permitted.2.2.1 permitted.2.2.2
  | atomToValue v => exact atomToValue_done running permitted
  | atomToString v => exact atomToString_done running empty permitted
  | atomIsArrayIndex v => exact atomIsArrayIndex_done running permitted

end Steps

section Runs
variable {predefined : List (JSString × AtomType)} {e : Nat} {rt : AtomRuntime} {w w' : World}
  {cs : List AtomCommand} {c : AtomCommand}

/-- The world after `JS_InitAtoms`. -/
def startWorld (predefined : List (JSString × AtomType)) (rt : AtomRuntime) : World :=
  ⟨rt, fun _ => 0, predefinedNames predefined.length⟩

/-- A run of permitted commands. -/
inductive AtomRun (atomEnd : Nat) (emptyString : JSAtom) : World → List AtomCommand → World → Prop where
  | done {w : World} : AtomRun atomEnd emptyString w [] w
  | step {w w' w'' : World} {c : AtomCommand} {cs : List AtomCommand} {o : Outcome} (permitted : Permitted w c)
      (performed : perform atomEnd emptyString w c = some (o, w'))
      (rest : AtomRun atomEnd emptyString w' cs w'') :
      AtomRun atomEnd emptyString w (c :: cs) w''

def attempt (atomEnd : Nat) (emptyString : JSAtom) : World → List AtomCommand → Option World
  | w, [] => some w
  | w, c :: cs => if Permitted w c then
      (perform atomEnd emptyString w c).bind fun performed => attempt atomEnd emptyString performed.2 cs
    else none

theorem attempt_run {atomEnd : Nat} {emptyString : JSAtom}
    (attempted : attempt atomEnd emptyString w cs = some w') :
    AtomRun atomEnd emptyString w cs w' := by
  induction cs generalizing w with
  | nil =>
    rw [attempt, Option.some.injEq] at attempted
    exact attempted ▸ .done
  | cons c cs ih =>
    rw [attempt] at attempted
    split at attempted
    · next permitted =>
      obtain ⟨⟨o, w₁⟩, performed, rest⟩ := Option.bind_eq_some_iff.1 attempted
      exact .step permitted performed (ih rest)
    · cases attempted

theorem running_start (chosen : WellChosen predefined) (some_ : predefined ≠ [])
    (start : jsInitAtoms predefined = some rt) : Running predefined (startWorld predefined rt) := by
  obtain ⟨rt', filled, state⟩ := initAtoms_spec chosen
  rw [start, Option.some.injEq] at filled
  subst filled
  have positive := List.length_pos_of_ne_nil some_
  refine ⟨⟨state.sound, state.size, Nat.succ_pos _, fun i below => ?_, fun i p text below slot here => ?_⟩, ?_,
    fun i text t there => state.numbered i text t (List.getElem?_eq_some_iff.1 there).1 there⟩
  · exact if_pos (Nat.le_of_lt_succ below)
  · change rt.slot? i = some p at slot
    change rt.entry p = _ at here
    rcases Nat.eq_zero_or_pos i with rfl | other
    · obtain ⟨s, null, symbol⟩ := state.sound.interned.null (Nat.lt_of_le_of_lt (Nat.zero_le _)
        (state.sound.interned.inside 0 p (slot?_eq.1 slot)))
      obtain ⟨q, mine, string⟩ := slot_of null
      rw [slot?_eq.2 mine, Option.some.injEq] at slot
      subst slot
      rw [entry_of string, symbol] at here
      cases here
    · obtain ⟨⟨text', t⟩, there⟩ : ∃ entry, predefined[i - 1]? = some entry :=
        ⟨_, List.getElem?_eq_getElem (by omega)⟩
      obtain ⟨q, slot', here'⟩ := state.numbered (i - 1) text' t (by omega) there
      rw [Nat.sub_add_cancel other, slot, Option.some.injEq] at slot'
      subst slot'
      rw [here, Option.some.injEq, Prod.mk.injEq, Option.some.injEq] at here'
      have type := chosen.types _ (List.mem_of_getElem? there)
      cases t <;> simp [AtomType.stored] at here' type
  · have inside : 0 < rt.atomSize := by
      rcases state.rising.inside with ⟨-, none⟩ | inside
      · omega
      · omega
    obtain ⟨s, null, -⟩ := state.sound.interned.null inside
    obtain ⟨q, mine, -⟩ := slot_of null
    exact ⟨q, slot?_eq.2 mine, rfl⟩

theorem running_run (empty : EmptyAt predefined e) (running : Running predefined w)
    (run : AtomRun (predefined.length + 1) (e + 1) w cs w') : Running predefined w' := by
  induction run with
  | done => exact running
  | step permitted performed _ ih =>
    obtain ⟨o, w₁, performed', done⟩ := perform_done running empty permitted
    rw [performed, Option.some.injEq, Prod.mk.injEq] at performed'
    exact ih (performed'.2 ▸ done.running)

theorem running_reached (chosen : WellChosen predefined) (empty : EmptyAt predefined e)
    (start : jsInitAtoms predefined = some rt)
    (run : AtomRun (predefined.length + 1) (e + 1) (startWorld predefined rt) cs w) : Running predefined w := by
  refine running_run empty (running_start chosen ?_ start) run
  rintro rfl
  obtain ⟨text, there, -⟩ := empty
  cases there

/-- Every permitted command of every run succeeds and does what it promises, and names that stay
    in use keep their meaning. -/
theorem atom_commands_succeed (chosen : WellChosen predefined) (empty : EmptyAt predefined e)
    (start : jsInitAtoms predefined = some rt)
    (run : AtomRun (predefined.length + 1) (e + 1) (startWorld predefined rt) cs w)
    (permitted : Permitted w c) :
    ∃ o w', perform (predefined.length + 1) (e + 1) w c = some (o, w') ∧ Meets w.rt w'.rt c o ∧ Usable w' o ∧
      ∀ v, w.Uses v → w'.Uses v → w'.rt.meaning v = w.rt.meaning v := by
  obtain ⟨o, w', performed, done⟩ := perform_done (running_reached chosen empty start run) empty permitted
  exact ⟨o, w', performed, done.meets, done.usable, done.kept⟩

/-- A table of predefined atoms that is small enough to be written out. -/
def twoTexts : List (JSString × AtomType) := [(.ofUnits [], .string), (.ofUnits [97], .symbol)]

theorem twoTexts_chosen : WellChosen twoTexts := by
  refine ⟨by decide, by decide, fun i j entry entry' first second isString isString' _ => ?_,
    fun entry there isString n number => ?_⟩
  · have only : ∀ k entry, twoTexts[k]? = some entry → entry.2 = .string → k = 0 := by
      intro k entry there isString
      match k with
      | 0 => rfl
      | 1 =>
        cases there
        cases isString
      | k + 2 => cases there
    rw [only i entry first isString, only j entry' second isString']
  · rcases List.mem_cons.1 there with rfl | there
    · have none : isNumString (.ofUnits []) = none := by decide
      rw [none] at number
      cases number
    · rw [List.mem_singleton] at there
      subst there
      cases isString

theorem twoTexts_empty : EmptyAt twoTexts 0 := ⟨.ofUnits [], rfl, by decide⟩

/-- What a computation after `JS_InitAtoms` finds is found by a run. -/
theorem twoTexts_run (cs : List AtomCommand) (found : World → Bool)
    (computed : ((jsInitAtoms twoTexts).bind fun rt =>
      (attempt 3 1 (startWorld twoTexts rt) cs).map found) = some true) :
    ∃ rt w, jsInitAtoms twoTexts = some rt ∧ AtomRun 3 1 (startWorld twoTexts rt) cs w ∧ found w = true := by
  obtain ⟨rt, start, attempted⟩ := Option.bind_eq_some_iff.1 computed
  obtain ⟨w, reached, yes⟩ := Option.map_eq_some_iff.1 attempted
  exact ⟨rt, w, start, attempt_run reached, yes⟩

/-- The name "b" is made and freed, and "c" and "b" are made in its slot and the next one. -/
def madeAgain : List AtomCommand := [.newAtomLen [98], .freeAtom 3, .newAtomLen [99], .newAtomLen [98]]

theorem atom_commands_succeed_again : ∃ rt w o w', jsInitAtoms twoTexts = some rt ∧
    AtomRun 3 1 (startWorld twoTexts rt) madeAgain w ∧
    perform 3 1 w (.atomToValue 4) = some (o, w') ∧ Meets w.rt w'.rt (.atomToValue 4) o := by
  obtain ⟨rt, w, start, run, uses⟩ := twoTexts_run madeAgain (fun w => w.Uses 4)
    (by decide +kernel)
  obtain ⟨o, w', performed, meets, -⟩ := atom_commands_succeed (c := .atomToValue 4) twoTexts_chosen
    twoTexts_empty start run (of_decide_eq_true uses)
  exact ⟨rt, w, o, w', start, run, performed, meets⟩

theorem meaning_injective {v v' : JSAtom} {key : Key} (running : Running predefined w) (uses : w.Uses v)
    (uses' : w.Uses v') (means : w.rt.meaning v = some key) (means' : w.rt.meaning v' = some key) : v = v' := by
  have inv := running.valid.sound.interned
  have slotted : ∀ {u}, w.Uses u → ¬ atomIsTaggedInt u → ∃ p s t, w.rt.slot? u = some p ∧
      w.rt.atom? u = some s ∧ s.atomType = some t ∧ t ≠ .privateName ∧
      w.rt.meaning u = some (entryKey p s.text t) := by
    intro u uses tagged
    obtain ⟨p, slot⟩ := Option.ne_none_iff_exists'.1 ((uses_slot running uses).resolve_left tagged).2
    obtain ⟨text, t, here, stored⟩ := entry_slot inv slot
    obtain ⟨s, string, rfl, type⟩ := string_of here
    exact ⟨p, s, t, slot, by rw [atom?_of (slot?_eq.1 slot), string], type, stored, meaning_of tagged slot here⟩
  have number : ∀ {u}, atomIsTaggedInt u → w.rt.meaning u = some (.index (atomToUInt32 u)) := fun tagged => by
    rw [AtomRuntime.meaning, if_pos tagged]
  have range : ∀ {u}, w.Uses u → atomIsTaggedInt u → 2 ^ 31 ≤ u ∧ u < 2 ^ 32 := by
    intro u uses tagged
    rcases uses with bounds | ⟨positive, used⟩
    · exact bounds
    · obtain ⟨p, slot⟩ := Option.ne_none_iff_exists'.1 (running.valid.sound.counted.names u positive used)
      exact absurd tagged (slot_untagged running.valid slot)
  by_cases tagged : atomIsTaggedInt v
  · by_cases tagged' : atomIsTaggedInt v'
    · rw [number tagged, Option.some.injEq] at means
      rw [number tagged', ← means, Option.some.injEq] at means'
      have apart : ∀ a b : Nat, 2 ^ 31 ≤ a ∧ a < 2 ^ 32 → 2 ^ 31 ≤ b ∧ b < 2 ^ 32 →
          b % 2 ^ 31 = a % 2 ^ 31 → a = b := by
        intro a b first second same
        omega
      exact apart v v' (range uses tagged) (range uses' tagged') (Key.index.inj means')
    · obtain ⟨p, s, t, -, -, -, -, mine⟩ := slotted uses' tagged'
      rw [number tagged] at means
      rw [mine, ← means, Option.some.injEq] at means'
      cases t <;> cases means'
  · obtain ⟨p, s, t, slot, atom, type, stored, mine⟩ := slotted uses tagged
    by_cases tagged' : atomIsTaggedInt v'
    · rw [number tagged'] at means'
      rw [mine, ← means', Option.some.injEq] at means
      cases t <;> cases means
    · obtain ⟨p', s', t', slot', atom', type', stored', mine'⟩ := slotted uses' tagged'
      rw [mine, Option.some.injEq] at means
      rw [mine', ← means, Option.some.injEq] at means'
      have sameText : t = t' → t ≠ .symbol → s.text.units = s'.text.units → v = v' := by
        rintro rfl other units
        exact inv.unique v v' s s' atom atom' (type.trans type'.symm) (by rw [type]; simpa using other) units
      cases t with
      | privateName => exact absurd rfl stored
      | string =>
        cases t' with
        | string => exact sameText rfl (by simp) (Key.name.inj means').symm
        | globalSymbol | symbol | privateName => cases means'
      | globalSymbol =>
        cases t' with
        | globalSymbol => exact sameText rfl (by simp) (Key.globalSymbol.inj means').symm
        | string | symbol | privateName => cases means'
      | symbol =>
        cases t' with
        | symbol =>
          have same := Key.symbol.inj means'
          subst same
          exact slot_unique inv slot slot'
        | string | globalSymbol => cases means'
        | privateName => exact absurd rfl stored'

/-- In every run the names in use mean keys, and there is one name for each key. -/
theorem names_are_keys (chosen : WellChosen predefined) (empty : EmptyAt predefined e)
    (start : jsInitAtoms predefined = some rt)
    (run : AtomRun (predefined.length + 1) (e + 1) (startWorld predefined rt) cs w) {v v' : JSAtom}
    (uses : w.Uses v) (uses' : w.Uses v') :
    ∃ key, w.rt.meaning v = some key ∧ (w.rt.meaning v' = some key ↔ v = v') := by
  have running := running_reached chosen empty start run
  obtain ⟨key, means⟩ := uses_meaning running uses
  refine ⟨key, means, fun means' => meaning_injective running uses uses' means means', ?_⟩
  rintro rfl
  exact means

theorem names_are_keys_again : ∃ rt w key, jsInitAtoms twoTexts = some rt ∧
    AtomRun 3 1 (startWorld twoTexts rt) madeAgain w ∧ w.rt.meaning 3 = some key ∧
    (w.rt.meaning 4 = some key ↔ 3 = 4) := by
  obtain ⟨rt, w, start, run, uses⟩ := twoTexts_run madeAgain (fun w => w.Uses 3 ∧ w.Uses 4)
    (by decide +kernel)
  obtain ⟨first, second⟩ := of_decide_eq_true uses
  obtain ⟨key, means, same⟩ := names_are_keys twoTexts_chosen twoTexts_empty start run first second
  exact ⟨rt, w, key, start, run, means, same⟩

/-- In every run the value of a name is the name of that value. -/
theorem atom_round_trip (chosen : WellChosen predefined) (empty : EmptyAt predefined e)
    (start : jsInitAtoms predefined = some rt)
    (run : AtomRun (predefined.length + 1) (e + 1) (startWorld predefined rt) cs w) {v : JSAtom}
    (uses : w.Uses v) :
    ∃ x w₁ w₂, perform (predefined.length + 1) (e + 1) w (.atomToValue v) = some (.value x, w₁) ∧
      perform (predefined.length + 1) (e + 1) w₁ (.valueToAtom x) = some (.atom v, w₂) := by
  have running := running_reached chosen empty start run
  obtain ⟨key, means⟩ := uses_meaning running uses
  obtain ⟨x, rt₁, gives, -⟩ := atomToValue_spec (e := e + 1) running.valid means
  obtain ⟨o, w₁, performed, done⟩ := atomToValue_done (e := e + 1) running uses
  have shape : perform (predefined.length + 1) (e + 1) w (.atomToValue v) =
      some (.value x, ⟨rt₁, hold w.held x, w.named⟩) := by
    simp only [perform, gives, Option.map_some, World.give]
  rw [shape, Option.some.injEq, Prod.mk.injEq] at performed
  obtain ⟨rfl, rfl⟩ := performed
  -- the atom is there, so that none has to be made
  have there : ∀ key', rt₁.valueKey x = some key' → RoomFor rt₁ key' := fun key' means' lacks =>
    absurd (((done.kept v uses uses).trans means).trans (((done.meets.trans means).symm).trans means'))
      (lacks v)
  obtain ⟨o, w₂, performed, done₂⟩ := valueToAtom_done (e := e + 1) done.running done.usable there
  have again := performed
  simp only [perform, Option.map_eq_some_iff] at again
  obtain ⟨⟨v', rt₂⟩, -, made⟩ := again
  rw [World.name, Prod.mk.injEq] at made
  obtain ⟨rfl, rfl⟩ := made
  -- the name that was made and the one that is still in use mean the same key
  obtain ⟨positive, means'⟩ := done₂.meets
  have uses₂ : World.Uses ⟨rt₂, hold w.held x, acquire (predefined.length + 1) w.named v'⟩ v := by
    rcases uses with tagged | ⟨other, used⟩
    · exact .inl tagged
    · exact .inr ⟨other, acquire_positive used⟩
  have kept := (done₂.kept v uses uses₂).trans (done.kept v uses uses)
  have same := meaning_injective done₂.running uses₂ (done₂.usable.resolve_left (Nat.ne_of_gt positive))
    (kept.trans means) (means'.trans (done.meets.trans means))
  exact ⟨x, _, _, shape, by rw [performed, same]⟩

theorem atom_round_trip_again : ∃ rt w x w₁ w₂, jsInitAtoms twoTexts = some rt ∧
    AtomRun 3 1 (startWorld twoTexts rt) madeAgain w ∧
    perform 3 1 w (.atomToValue 4) = some (.value x, w₁) ∧
    perform 3 1 w₁ (.valueToAtom x) = some (.atom 4, w₂) := by
  obtain ⟨rt, w, start, run, uses⟩ := twoTexts_run madeAgain (fun w => w.Uses 4)
    (by decide +kernel)
  obtain ⟨x, w₁, w₂, gives, makes⟩ := atom_round_trip twoTexts_chosen twoTexts_empty start run
    (of_decide_eq_true uses)
  exact ⟨rt, w, x, w₁, w₂, start, run, gives, makes⟩

/-- In every run `JS_NewAtomLen` gives the name of the decoded text unless its bytes are the units of
    another narrow string that is an atom: it compares UTF-8 with the units of strings. -/
theorem newAtomLen_exact (chosen : WellChosen predefined) (empty : EmptyAt predefined e)
    (start : jsInitAtoms predefined = some rt)
    (run : AtomRun (predefined.length + 1) (e + 1) (startWorld predefined rt) cs w) (roomy : Roomy w.rt)
    {str : List UInt8} {text : JSString} (decoded : newStringLen str = some text) :
    ∃ v w', perform (predefined.length + 1) (e + 1) w (.newAtomLen str) = some (.atom v, w') ∧ w'.Uses v ∧
      (w'.rt.meaning v = some (textKey text) ↔ StartsWithDigit str ∨ (∀ b ∈ str, b.toNat < 128) ∨
        ∀ p text', w.rt.entry p = some (text', some .string) → text'.isWide = false →
          text'.units ≠ byteUnits str) := by
  have running := running_reached chosen empty start run
  obtain ⟨v, rt', key, makes, made, exactly⟩ := newAtomLen_spec running.valid roomy decoded
  have done : Done predefined w (.newAtomLen str) (.atom v)
      ⟨rt', w.held, acquire (predefined.length + 1) w.named v⟩ :=
    makes_done running made (null_held running) fun positive _ => .inr positive
  refine ⟨v, _, ?_, done.usable.resolve_left (Nat.ne_of_gt made.other), ?_⟩
  · simp only [perform, makes, Option.map_some, World.name]
  · rw [← exactly]
    show rt'.meaning v = _ ↔ _
    rw [made.means, Option.some.injEq]

/-- The name "b" is made and freed, and the one of the two units 0xC3 and 0xA9 takes its slot. -/
def accentMade : List AtomCommand := [.newAtomLen [98], .freeAtom 3, .newAtomLen [0xC3, 0x83, 0xC2, 0xA9]]

/-- The bytes of U+00E9 are those two units, and give another name. -/
theorem newAtomLen_exact_accent : ∃ rt w v w', jsInitAtoms twoTexts = some rt ∧
    AtomRun 3 1 (startWorld twoTexts rt) accentMade w ∧
    perform 3 1 w (.newAtomLen [0xC3, 0xA9]) = some (.atom v, w') ∧
    w'.rt.meaning v ≠ some (textKey (.ofUnits [0xE9])) := by
  obtain ⟨rt, w, start, run, there⟩ := twoTexts_run accentMade (fun w => Roomy w.rt ∧
    (w.rt.slot? 3).bind w.rt.entry = some (.ofUnits [0xC3, 0xA9], some .string)) (by decide +kernel)
  obtain ⟨roomy, there⟩ := of_decide_eq_true there
  have decoded : newStringLen [0xC3, 0xA9] = some (.ofUnits [0xE9]) := by decide
  obtain ⟨v, w', performed, -, exactly⟩ := newAtomLen_exact twoTexts_chosen twoTexts_empty start run roomy
    decoded
  refine ⟨rt, w, v, w', start, run, performed, fun means => ?_⟩
  obtain ⟨p, -, here⟩ := Option.bind_eq_some_iff.1 there
  rcases exactly.1 means with digit | ascii | apart
  · exact absurd (show (false = true) from digit) (by decide)
  · exact absurd (ascii 0xC3 (by decide)) (by decide)
  · exact apart p _ here rfl (by decide)

/-- `JS_InitAtoms` makes the n-th predefined text the atom n, for good: in every run the atom is in
    use and has that text and type. -/
theorem predefined_numbered (chosen : WellChosen predefined) (empty : EmptyAt predefined e) :
    ∃ rt, jsInitAtoms predefined = some rt ∧ ∀ cs w,
      AtomRun (predefined.length + 1) (e + 1) (startWorld predefined rt) cs w →
      ∀ i text t, predefined[i]? = some (text, t) → w.Uses (i + 1) ∧
        ∃ p, w.rt.slot? (i + 1) = some p ∧ w.rt.entry p = some (text, some t.stored) := by
  obtain ⟨rt, start, -⟩ := initAtoms_spec chosen
  refine ⟨rt, start, fun cs w run i text t there => ?_⟩
  have running := running_reached chosen empty start run
  have within := (List.getElem?_eq_some_iff.1 there).1
  exact ⟨.inr ⟨Nat.succ_pos i, consts_used running (i + 1) (by omega)⟩, running.numbered i text t there⟩

theorem predefined_numbered_two : ∃ rt p, jsInitAtoms twoTexts = some rt ∧ rt.slot? 2 = some p ∧
    rt.entry p = some (.ofUnits [97], some .symbol) := by
  obtain ⟨rt, start, numbered⟩ := predefined_numbered twoTexts_chosen twoTexts_empty
  obtain ⟨-, p, slot, here⟩ := numbered [] _ .done 1 (.ofUnits [97]) .symbol rfl
  exact ⟨rt, p, start, slot, here⟩

/-- A string is allocated as long as something holds it. -/
theorem allocated_iff (running : Running predefined w) (p : Addr) :
    w.rt.strings p ≠ none ↔ 0 < w.held p ∨ ∃ i, 0 < w.named i ∧ w.rt.slot? i = some p := by
  have counted := running.valid.sound.counted
  have inv := running.valid.sound.interned
  constructor
  · intro there
    obtain ⟨s, string⟩ := Option.ne_none_iff_exists'.1 there
    have positive := counted.positive p (by
      rw [entry_of string]
      exact Option.some_ne_none _)
    cases type : s.atomType with
    | none =>
      rw [counted.plain p s.text (by rw [entry_of string, type])] at positive
      exact .inl positive
    | some t =>
      obtain ⟨i, slot⟩ := slot_entry inv (by rw [entry_of string, type])
      rw [counted.atoms i p slot] at positive
      rcases Nat.eq_zero_or_pos (w.held p) with unheld | holds
      · exact .inr ⟨i, by omega, slot⟩
      · exact .inl holds
  · rintro (holds | ⟨i, -, slot⟩) none
    · exact counted.holds p holds (entry_none.2 none)
    · obtain ⟨text, t, here, -⟩ := entry_slot inv slot
      rw [entry_none.2 none] at here
      cases here

theorem predefined_slot (running : Running predefined w) {i : Nat} (within : i ≤ predefined.length) :
    ∃ p, w.rt.slot? i = some p := by
  rcases Nat.eq_zero_or_pos i with rfl | positive
  · obtain ⟨p, slot, -⟩ := running.null
    exact ⟨p, slot⟩
  · obtain ⟨⟨text, t⟩, there⟩ : ∃ entry, predefined[i - 1]? = some entry :=
      ⟨_, List.getElem?_eq_getElem (by omega)⟩
    obtain ⟨p, slot, -⟩ := running.numbered (i - 1) text t there
    rw [Nat.sub_add_cancel positive] at slot
    exact ⟨p, slot⟩

/-- Where only the predefined atoms are left, the free slots are the ones above them. -/
theorem count_predefined (running : Running predefined w)
    (left : ∀ p, w.rt.strings p ≠ none → ∃ i ≤ predefined.length, w.rt.slot? i = some p) :
    w.rt.atomCount = predefined.length + 1 := by
  have inv := running.valid.sound.interned
  have within : predefined.length < w.rt.atomSize := by
    obtain ⟨p, slot⟩ := predefined_slot running (Nat.le_refl _)
    exact inv.inside _ p (slot?_eq.1 slot)
  obtain ⟨is, -, nodup, members, total⟩ := inv.free
  have above : ∀ i, i ∈ is ↔
      i ∈ List.range' (predefined.length + 1) (w.rt.atomSize - (predefined.length + 1)) := by
    intro i
    rw [members, List.mem_range'_1]
    constructor
    · rintro ⟨inside, free⟩
      have beyond : ¬ i ≤ predefined.length := by
        intro below
        obtain ⟨p, slot⟩ := predefined_slot running below
        exact free p (slot?_eq.1 slot)
      omega
    · rintro ⟨beyond, inside⟩
      refine ⟨by omega, fun p slot => ?_⟩
      obtain ⟨s, t, string, -⟩ := inv.there i p slot
      obtain ⟨j, below, slot'⟩ := left p (by
        rw [string]
        exact Option.some_ne_none s)
      have same := inv.apart j i p (slot?_eq.1 slot') slot
      omega
  have length := ((List.perm_ext_iff_of_nodup nodup List.nodup_range').2 above).length_eq
  rw [List.length_range'] at length
  omega

/-- In every run the strings that are allocated are those that values or names hold, so that when all
    has been given back the predefined atoms are left. -/
theorem strings_held (chosen : WellChosen predefined) (empty : EmptyAt predefined e)
    (start : jsInitAtoms predefined = some rt)
    (run : AtomRun (predefined.length + 1) (e + 1) (startWorld predefined rt) cs w) :
    (∀ p, w.rt.strings p ≠ none ↔ 0 < w.held p ∨ ∃ i, 0 < w.named i ∧ w.rt.slot? i = some p) ∧
      ((∀ p, w.held p = 0) → (∀ i, w.named i = predefinedNames predefined.length i) →
        w.rt.atomCount = predefined.length + 1 ∧
        ∀ p, w.rt.strings p ≠ none ↔ ∃ i ≤ predefined.length, w.rt.slot? i = some p) := by
  have running := running_reached chosen empty start run
  refine ⟨allocated_iff running, fun unheld names => ?_⟩
  have left : ∀ p, w.rt.strings p ≠ none ↔ ∃ i ≤ predefined.length, w.rt.slot? i = some p := by
    intro p
    rw [allocated_iff running]
    constructor
    · rintro (holds | ⟨i, used, slot⟩)
      · rw [unheld] at holds
        exact absurd holds (Nat.lt_irrefl 0)
      · rw [names, predefinedNames] at used
        split at used
        · next within => exact ⟨i, within, slot⟩
        · exact absurd used (Nat.lt_irrefl 0)
    · rintro ⟨i, within, slot⟩
      exact .inr ⟨i, consts_used running i (by omega), slot⟩
  exact ⟨count_predefined running fun p => (left p).1, left⟩

theorem counts_returned {o o' : Outcome} {w₁ w₂ : World} {str : List UInt8} {v atomEnd emptyString : Nat}
    (unused : w.named v = 0) (makes : perform atomEnd emptyString w (.newAtomLen str) = some (o, w₁))
    (used : 0 < w₁.named v) (frees : perform atomEnd emptyString w₁ (.freeAtom v) = some (o', w₂)) :
    w₂.held = w.held ∧ w₂.named = w.named := by
  simp only [perform, World.name, Option.map_eq_some_iff, Prod.mk.injEq] at makes frees
  obtain ⟨⟨u, rt₁⟩, -, -, rfl⟩ := makes
  obtain ⟨rt₂, -, -, rfl⟩ := frees
  refine ⟨rfl, ?_⟩
  show relinquish atomEnd (acquire atomEnd w.named u) v = w.named
  change 0 < acquire atomEnd w.named u v at used
  unfold acquire at used ⊢
  split at used
  · rw [unused] at used
    exact absurd used (Nat.lt_irrefl 0)
  · next other =>
    obtain rfl : v = u := by
      by_contra apart
      rw [gain_of_ne _ apart, unused] at used
      exact absurd used (Nat.lt_irrefl 0)
    rw [if_neg other, relinquish, if_neg other, lose_gain]

theorem strings_held_returned : ∃ rt w, jsInitAtoms twoTexts = some rt ∧
    AtomRun 3 1 (startWorld twoTexts rt) [.newAtomLen [98], .freeAtom 3, .newAtomLen [99], .freeAtom 3] w ∧
    w.rt.atomCount = 3 := by
  obtain ⟨rt, w, start, run, -⟩ := twoTexts_run
    [.newAtomLen [98], .freeAtom 3, .newAtomLen [99], .freeAtom 3] (fun _ => true) (by decide +kernel)
  refine ⟨rt, w, start, run, ?_⟩
  obtain ⟨-, all⟩ := strings_held twoTexts_chosen twoTexts_empty start run
  cases run with | step _ makes rest
  cases rest with | step uses frees rest
  cases rest with | step _ makes' rest
  cases rest with | step uses' frees' rest
  cases rest
  have tagged : ∀ {w : World}, w.Uses 3 → 0 < w.named 3 := fun uses => by
    rcases uses with ⟨tagged, -⟩ | ⟨-, used⟩
    · exact absurd tagged (by decide)
    · exact used
  obtain ⟨held, named⟩ := counts_returned rfl makes (tagged uses) frees
  obtain ⟨held', named'⟩ := counts_returned (named ▸ rfl) makes' (tagged uses') frees'
  exact (all (fun p => by rw [held', held]; rfl) fun i => by rw [named', named]; rfl).1

end Runs
end QuickJSBridge.Atoms
