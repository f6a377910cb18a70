import QuickJSBridge.AtomValues

/- `JS_InitAtoms`: the n-th predefined text becomes the atom n, since the slots of a table that
   grows are taken in order and no predefined text is found in the table. -/
namespace QuickJSBridge.Atoms
open HashChains

/-- The slots up to `k` are taken, and the next atom takes the slot after it. -/
structure Rising (k : Nat) (rt : AtomRuntime) : Prop where
  next : rt.atomFreeIndex = if k + 1 < rt.atomSize then k + 1 else 0
  inside : rt.atomSize = 0 ∧ k = 0 ∨ k < rt.atomSize
  free : ∀ i, k < i → i < rt.atomSize → rt.atomArray i = .free (if i = rt.atomSize - 1 then 0 else i + 1)

/-- What is asked of the predefined atoms: names that differ, and no numbers. -/
structure WellChosen (predefined : List (JSString × AtomType)) : Prop where
  few : predefined.length * 3 < 2 ^ 31
  types : ∀ entry ∈ predefined, entry.2 ≠ .globalSymbol
  distinct : ∀ (i j : Nat) (entry entry' : JSString × AtomType), predefined[i]? = some entry →
    predefined[j]? = some entry' →
    entry.2 = .string → entry'.2 = .string → entry.1.units = entry'.1.units → i = j
  names : ∀ entry ∈ predefined, entry.2 = .string → ∀ n, isNumString entry.1 = some n → atomMaxInt < n

/-- The predefined atoms are in use from the start. -/
def predefinedNames (k i : Nat) : Nat := if i ≤ k then 1 else 0

def emptyAtoms : AtomRuntime := ⟨fun _ => none, 1, 256, 0, 0, 512, fun _ => 0, fun _ => .free 0, 0⟩

section Start
variable {held : Addr → Nat} {named : JSAtom → Nat} {rt rt' : AtomRuntime} {k n : Nat} {p : Addr}
  {text : JSString} {t : AtomType} {atomEnd : Nat}

theorem growAtoms_shape (grows : growAtoms rt = some (some rt')) :
    rt'.atomSize = max 211 (rt.atomSize * 3 / 2) ∧
      rt'.atomFreeIndex = (if rt.atomSize = 0 then 1 else rt.atomSize) ∧
      ∀ i, (if rt.atomSize = 0 then 1 else rt.atomSize) ≤ i → i < rt'.atomSize →
        rt'.atomArray i = .free (if i = rt'.atomSize - 1 then 0 else i + 1) := by
  unfold growAtoms at grows
  by_cases small : rt.atomSize * 3 < 2 ^ 31
  · simp only [guard, if_pos small, Option.pure_def, Option.bind_eq_bind, Option.bind_some] at grows
    split at grows
    · cases grows
    · rw [Option.some.injEq, Option.some.injEq] at grows
      rw [← grows]
      refine ⟨rfl, ?_, fun i above below => ?_⟩
      · simp only
        split <;> rfl
      · simp only at below ⊢
        refine (if_pos ⟨?_, below⟩).trans rfl
        by_cases zero : rt.atomSize = 0
        · rwa [if_pos zero] at above ⊢
        · rwa [if_neg zero] at above ⊢
  · simp only [guard, if_neg small] at grows
    cases grows

theorem rising_room (rising : Rising k rt) (room : roomForAtom rt = some (some rt')) :
    Rising k rt' ∧ rt'.atomFreeIndex = k + 1 := by
  unfold roomForAtom at room
  have next := rising.next
  split at room
  · next full =>
    obtain ⟨size, index, free⟩ := growAtoms_shape room
    have start : (if rt.atomSize = 0 then 1 else rt.atomSize) = k + 1 := by
      rw [full] at next
      have inside := rising.inside
      split
      · omega
      · split at next <;> omega
    rw [start] at index free
    have fits : k + 1 < rt'.atomSize := by
      have inside := rising.inside
      split at start <;> omega
    exact ⟨⟨by rw [index, if_pos fits], .inr (by omega), free⟩, index⟩
  · next other =>
    rw [Option.some.injEq, Option.some.injEq] at room
    subst room
    refine ⟨rising, ?_⟩
    split at next
    · exact next
    · exact absurd next other

/-- `__JS_NewAtomInit` on a text that is no atom yet makes it the next atom. -/
theorem newAtomInit_spec (sound : Sound (fun _ => 0) named rt) (rising : Rising k rt)
    (few : (k + 1) * 3 < 2 ^ 31)
    (fresh : t.stored ≠ .symbol → ∀ q text', rt.entry q = some (text', some t.stored) →
      text'.units ≠ text.units)
    (numeric : t = .string → ∀ n, isNumString text = some n → atomMaxInt < n) :
    ∃ rt' p, jsNewAtomInit atomEnd rt text t = some (k + 1, rt') ∧
      Sound (fun _ => 0) (gain named (k + 1)) rt' ∧ Keeps named rt rt' ∧ Rising (k + 1) rt' ∧
      rt'.slot? (k + 1) = some p ∧ rt'.entry p = some (text, some t.stored) := by
  obtain ⟨sound₁, keeps₁, here₁, noneNew₁, size₁⟩ := sound_alloc sound text
  obtain ⟨rt₁, made⟩ : ∃ rt₁, rt₁ = (newString rt text).2 := ⟨_, rfl⟩
  rw [← made] at sound₁ keeps₁ here₁ noneNew₁ size₁
  have rising₁ : Rising k rt₁ := by
    rw [made]
    exact ⟨rising.next, rising.inside, rising.free⟩
  have roomy₁ : Roomy rt₁ := by
    by_cases room : rt₁.atomFreeIndex = 0
    · have next := rising₁.next
      refine .inr ?_
      rw [room] at next
      split at next <;> omega
    · exact .inl room
  obtain ⟨rt₂, grows, sound₂, keeps₂, room₂, noneNew₂⟩ := sound_room sound₁ roomy₁
  obtain ⟨rising₂, index⟩ := rising_room rising₁ grows
  have used : 0 < gain (fun _ => 0) rt.heapTop rt.heapTop := by
    rw [gain_self]
    exact Nat.succ_pos _
  have here₂ : rt₂.entry rt.heapTop = some (text, none) :=
    (noneNew₂.plain _ _ here₁).resolve_left (sound₂.counted.holds _ used)
  obtain ⟨s, string, rfl, type⟩ := string_of here₂
  have adds : ∀ h, addAtom rt₁ (some rt.heapTop) h t.stored = registerAtom rt₂ rt.heapTop h t.stored := by
    intro h
    unfold addAtom atomString
    simp only [grows, string, type, if_true, Option.bind_eq_bind, Option.bind_some]
  obtain ⟨h, start, hash⟩ : ∃ h, jsNewAtomInit atomEnd rt s.text t = registerAtom rt₂ rt.heapTop h t.stored ∧
      (t.stored ≠ .symbol → h = hashString s.text t.stored.number &&& atomHashMask) := by
    have init : jsNewAtomInit atomEnd rt s.text t = jsNewAtom atomEnd rt₁ (some rt.heapTop) t := by
      rw [made]
      rfl
    by_cases symbol : t.stored = .symbol
    · cases t with
      | symbol => exact ⟨0, init.trans (adds 0), fun other => absurd rfl other⟩
      | privateName => exact ⟨1, init.trans (adds 1), fun other => absurd rfl other⟩
      | string => cases symbol
      | globalSymbol => cases symbol
    · have same : t.stored = t := by
        cases t with
        | privateName => exact absurd rfl symbol
        | string | globalSymbol | symbol => rfl
      rw [same] at symbol fresh adds ⊢
      obtain ⟨r, walked, hits, misses⟩ := find_atom sound₁.interned symbol s.text.units
        (h := hashString s.text t.number &&& atomHashMask) rfl
      have missed : r = none := by
        cases r with
        | none => rfl
        | some i =>
          obtain ⟨q, text', -, there, units, -⟩ := hits i rfl
          exact absurd units (fresh symbol q text' (noneNew₁.entries q text' t there symbol))
      subst missed
      obtain ⟨s₁, string₁, text₁, type₁⟩ := string_of here₁
      refine ⟨_, ?_, fun _ => rfl⟩
      rw [init, ← adds]
      have unfolds : jsNewAtom atomEnd rt₁ (some rt.heapTop) t = internAtom atomEnd rt₁ rt.heapTop t := by
        cases t with
        | string | globalSymbol => rfl
        | symbol => exact absurd rfl symbol
        | privateName => cases same
      have other : s₁.atomType ≠ some t := by
        rw [type₁]
        exact (Option.some_ne_none t).symm
      rw [unfolds, internAtom]
      simp only [string₁, Option.bind_eq_bind, Option.bind_some, if_neg other, text₁, walked]
  have storedType : t.stored ≠ .privateName := by
    cases t <;> simp [AtomType.stored]
  obtain ⟨rt₃, registers, sound₃, keeps₃, unnamed, slot₃, here₃, array, head, size⟩ := sound_register sound₂
    room₂ here₂ used storedType hash
    (fun other q text' there => fresh other q text' (noneNew₁.entries q text' _
      (noneNew₂.entries q text' _ there other) other))
    (fun isString => numeric (by
      cases t with
      | string => rfl
      | globalSymbol | symbol | privateName => cases isString))
  rw [index] at registers sound₃ unnamed slot₃ array head
  refine ⟨rt₃, rt.heapTop, by rw [start, registers], ?_, ?_, ?_, slot₃, here₃⟩
  · have named' : Function.update named (k + 1) 1 = gain named (k + 1) := by rw [gain, unnamed]
    rwa [named', lose_gain] at sound₃
  · exact (keeps₁.trans sound.interned keeps₂ fun _ used => used).trans sound.interned keeps₃ fun _ used => used
  · have fits : k + 1 < rt₂.atomSize := by
      have next := rising₂.next
      rw [index] at next
      split at next <;> omega
    have slot := rising₂.free (k + 1) (Nat.lt_succ_self k) fits
    rw [head, AtomSlot.free.injEq] at slot
    refine ⟨?_, .inr (by rwa [size]), fun i above below => ?_⟩
    · rw [slot, size]
      split <;> split <;> omega
    · rw [size] at below
      rw [array, Function.update_of_ne (by omega), rising₂.free i (by omega) below, size]

theorem sound_empty : Sound (fun _ => 0) (predefinedNames 0) emptyAtoms := by
  have unslotted : ∀ i, emptyAtoms.atom? i = none := fun _ => rfl
  refine ⟨?_, ?_⟩
  · exact {
      inside := fun i p slot => by cases slot
      there := fun i p slot => by cases slot
      apart := fun i j p slot => by cases slot
      slotted := fun p s here => by cases here
      below := fun p there => absurd rfl there
      null := fun positive => absurd positive (Nat.lt_irrefl 0)
      symbols := fun i s here => by cases here
      free := ⟨[], .stop, List.nodup_nil, fun i => by simp [emptyAtoms], rfl⟩
      filed := filed_congr (filed_empty _ fun _ => rfl) (fun i => by simp [AtomRuntime.Hashed, unslotted])
        fun _ _ => rfl
      power := by decide
      hashes := fun i s t here => by cases here
      unique := fun i j s s' here => by cases here
      numeric := fun i s here => by cases here }
  · refine ⟨fun i p slot => ?_, fun p text here => ?_, fun p there => absurd rfl there,
      fun p holds => absurd holds (Nat.lt_irrefl 0), fun i positive used => ?_, rfl⟩
    · cases slot
    · cases here
    rw [predefinedNames, if_neg (Nat.not_le.2 positive)] at used
    exact absurd used (Nat.lt_irrefl 0)

/-- The table after the first `k` predefined atoms. -/
structure Started (predefined : List (JSString × AtomType)) (k : Nat) (rt : AtomRuntime) : Prop where
  sound : Sound (fun _ => 0) (predefinedNames k) rt
  rising : Rising k rt
  size : rt.atomSize ≤ atomMax
  numbered : ∀ i text t, i < k → predefined[i]? = some (text, t) →
    ∃ p, rt.slot? (i + 1) = some p ∧ rt.entry p = some (text, some t.stored)

theorem initAtoms_spec {predefined : List (JSString × AtomType)} (chosen : WellChosen predefined) :
    ∃ rt, jsInitAtoms predefined = some rt ∧ Started predefined predefined.length rt := by
  have started : jsResizeAtomHash ⟨fun _ => none, 1, 0, 0, 0, 0, fun _ => 0, fun _ => .free 0, 0⟩ 256 =
      some emptyAtoms := rfl
  unfold jsInitAtoms
  rw [started, Option.bind_eq_bind, Option.bind_some]
  -- by induction on the number of texts that have had their turn
  have loop : ∀ k ≤ predefined.length, ∃ rt,
      (predefined.take k).foldlM (initAtom (predefined.length + 1)) emptyAtoms = some rt ∧
        Started predefined k rt := by
    intro k
    induction k with
    | zero =>
      exact fun _ => ⟨emptyAtoms, rfl, sound_empty, ⟨rfl, .inl ⟨rfl, rfl⟩, fun i _ below =>
        absurd below (Nat.not_lt_zero i)⟩, Nat.zero_le _, fun i _ _ below => absurd below (Nat.not_lt_zero i)⟩
    | succ k ih =>
      intro within
      obtain ⟨rt, filled, state⟩ := ih (Nat.le_of_succ_le within)
      obtain ⟨⟨text, t⟩, mine⟩ : ∃ entry, predefined[k]? = some entry :=
        ⟨_, List.getElem?_eq_getElem within⟩
      have member := List.mem_of_getElem? mine
      have type := chosen.types _ member
      have few := chosen.few
      have fresh : t.stored ≠ .symbol → ∀ q text', rt.entry q = some (text', some t.stored) →
          text'.units ≠ text.units := by
        intro other q text' there same
        -- a text that is found has had its turn
        obtain ⟨i, slot⟩ := slot_entry state.sound.interned there
        have inside := state.sound.interned.inside i q (slot?_eq.1 slot)
        have positive := slot_positive state.sound.interned slot there other
        have below : i ≤ k := by
          by_contra above
          have free := state.rising.free i (Nat.lt_of_not_le above) inside
          rw [slot?_eq.1 slot] at free
          cases free
        obtain ⟨⟨text₀, t₀⟩, mine₀⟩ : ∃ entry, predefined[i - 1]? = some entry :=
          ⟨_, List.getElem?_eq_getElem (by omega)⟩
        obtain ⟨q₀, slot₀, here₀⟩ := state.numbered (i - 1) text₀ t₀ (by omega) mine₀
        rw [Nat.sub_add_cancel positive, slot, Option.some.injEq] at slot₀
        subst slot₀
        rw [there, Option.some.injEq, Prod.mk.injEq, Option.some.injEq] at here₀
        obtain ⟨rfl, types⟩ := here₀
        have strings : t = .string ∧ t₀ = .string := by
          cases t <;> cases t₀ <;> simp [AtomType.stored] at types other type ⊢
        have index := chosen.distinct (i - 1) k _ _ mine₀ mine strings.2 strings.1 same
        omega
      obtain ⟨rt', p, makes, sound, keeps, rising, slot, here⟩ := @newAtomInit_spec _ rt k text t
        (predefined.length + 1) state.sound state.rising (by omega) fresh fun isString =>
          chosen.names _ member isString
      refine ⟨rt', ?_, ?_, rising, keeps.atomSize state.size, fun i text₀ t₀ below there => ?_⟩
      · rw [List.take_add_one, mine, List.foldlM_append, filled, Option.bind_eq_bind, Option.bind_some]
        simp only [Option.toList_some, List.foldlM_cons, initAtom, makes, Option.bind_eq_bind, Option.bind_some]
        rfl
      · have names : gain (predefinedNames k) (k + 1) = predefinedNames (k + 1) := by
          funext i
          by_cases next : i = k + 1
          · rw [next, gain_self, predefinedNames, predefinedNames, if_neg (by omega), if_pos (Nat.le_refl _)]
          · rw [gain_of_ne _ next, predefinedNames, predefinedNames]
            by_cases below : i ≤ k
            · rw [if_pos below, if_pos (by omega)]
            · rw [if_neg below, if_neg (by omega)]
        rwa [names] at sound
      · by_cases last : i = k
        · subst last
          rw [mine, Option.some.injEq, Prod.mk.injEq] at there
          obtain ⟨rfl, rfl⟩ := there
          exact ⟨p, slot, here⟩
        · obtain ⟨q, slot', here'⟩ := state.numbered i text₀ t₀ (by omega) there
          obtain ⟨slot'', here''⟩ := kept_entry sound keeps slot' (by
            rw [predefinedNames, if_pos (by omega)]
            exact Nat.zero_lt_one) here'
          exact ⟨q, slot'', here''⟩
  obtain ⟨rt, filled, state⟩ := loop predefined.length (Nat.le_refl _)
  rw [List.take_length] at filled
  exact ⟨rt, filled, state⟩

end Start
end QuickJSBridge.Atoms
