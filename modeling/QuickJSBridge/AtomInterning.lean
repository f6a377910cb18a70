import QuickJSBridge.AtomTable

/- The invariant of the atom table and what each of its operations does to it. The free slots
   are a chain of their own, the hashed atoms are filed by hash, and no two of them have the
   same type and text. -/
namespace QuickJSBridge.Atoms
open HashChains

section Slots
variable {rt rt' : AtomRuntime} {i j n : Nat} {p q : Addr} {s s' : StringStruct}

def StringStruct.core (s : StringStruct) : StringStruct := { s with refCount := 0, hashNext := 0 }

/-- The count of a string, 0 where there is none. -/
def AtomRuntime.count (rt : AtomRuntime) (p : Addr) : Nat :=
  ((rt.strings p).map StringStruct.refCount).getD 0

theorem count_of (here : rt.strings p = some s) : rt.count p = s.refCount := by
  simp [AtomRuntime.count, here]

theorem link_some (positive : 0 < n) : link n = some n := by
  rw [link, if_neg (by omega)]

theorem atom?_of (slot : rt.atomArray i = .atom p) : rt.atom? i = rt.strings p := by
  simp [AtomRuntime.atom?, slot]

theorem slot_of (here : rt.atom? i = some s) :
    ∃ p, rt.atomArray i = .atom p ∧ rt.strings p = some s := by
  unfold AtomRuntime.atom? at here
  split at here
  · next p slot => exact ⟨p, slot, here⟩
  · cases here

theorem next_of (here : rt.atom? i = some s) : rt.next i = link s.hashNext := by
  simp [AtomRuntime.next, here]

theorem bucketOf_of (here : rt.atom? i = some s) :
    rt.bucketOf i = s.hash &&& (rt.atomHashSize - 1) := by
  simp [AtomRuntime.bucketOf, here]

@[simp] theorem set_strings (here : Option StringStruct) :
    (rt.set p here).strings = Function.update rt.strings p here := rfl

@[simp] theorem setHashNext_atomHash : (rt.setHashNext i n).atomHash = rt.atomHash := by
  unfold AtomRuntime.setHashNext
  split <;> rfl

@[simp] theorem setHashNext_atomHashSize :
    (rt.setHashNext i n).atomHashSize = rt.atomHashSize := by
  unfold AtomRuntime.setHashNext
  split <;> rfl

def AtomRuntime.Hashed (rt : AtomRuntime) (i : Nat) : Prop :=
  ∃ s, rt.atom? i = some s ∧ s.atomType ≠ some .symbol

structure Interned (rt : AtomRuntime) : Prop where
  inside : ∀ i p, rt.atomArray i = .atom p → i < rt.atomSize
  there : ∀ i p, rt.atomArray i = .atom p → ∃ s t, rt.strings p = some s ∧
    s.atomType = some t ∧ t ≠ .privateName
  apart : ∀ i j p, rt.atomArray i = .atom p → rt.atomArray j = .atom p → i = j
  slotted : ∀ p s, rt.strings p = some s → s.atomType ≠ none → ∃ i, rt.atomArray i = .atom p
  below : ∀ p, rt.strings p ≠ none → p < rt.heapTop
  null : 0 < rt.atomSize → ∃ s, rt.atom? 0 = some s ∧ s.atomType = some .symbol
  symbols : ∀ i s, rt.atom? i = some s → s.atomType = some .symbol → s.hashNext = i
  free : ∃ is, Chain rt.freeNext (link rt.atomFreeIndex) is ∧ is.Nodup ∧
    (∀ i, i ∈ is ↔ i < rt.atomSize ∧ ∀ p, rt.atomArray i ≠ .atom p) ∧
    is.length + rt.atomCount = rt.atomSize
  filed : Filed rt.links rt.bucketOf rt.Hashed
  power : 0 < rt.atomHashSize ∧ rt.atomHashSize &&& (rt.atomHashSize - 1) = 0
  hashes : ∀ i s t, rt.atom? i = some s → s.atomType = some t → t ≠ .symbol →
    s.hash = hashString s.text t.number &&& atomHashMask
  unique : ∀ i j s s', rt.atom? i = some s → rt.atom? j = some s' → s.atomType = s'.atomType →
    s.atomType ≠ some .symbol → s.text.units = s'.text.units → i = j
  numeric : ∀ i s, rt.atom? i = some s → s.atomType = some .string →
    ∀ n, isNumString s.text = some n → atomMaxInt < n

structure SameAtoms (rt rt' : AtomRuntime) : Prop where
  atomArray : rt'.atomArray = rt.atomArray
  atomSize : rt'.atomSize = rt.atomSize
  atomFreeIndex : rt'.atomFreeIndex = rt.atomFreeIndex
  atomCount : rt'.atomCount = rt.atomCount
  heapTop : rt'.heapTop = rt.heapTop
  strings : ∀ p, (rt'.strings p).map StringStruct.core = (rt.strings p).map StringStruct.core
  aside : ∀ i s, rt.atom? i = some s → s.atomType = some .symbol →
    ∃ s', rt'.atom? i = some s' ∧ s'.hashNext = s.hashNext

theorem SameAtoms.refl : SameAtoms rt rt where
  atomArray := rfl
  atomSize := rfl
  atomFreeIndex := rfl
  atomCount := rfl
  heapTop := rfl
  strings := fun _ => rfl
  aside := fun _ s here _ => ⟨s, here, rfl⟩

theorem SameAtoms.trans {rt'' : AtomRuntime} (first : SameAtoms rt rt')
    (second : SameAtoms rt' rt'') : SameAtoms rt rt'' where
  atomArray := second.atomArray.trans first.atomArray
  atomSize := second.atomSize.trans first.atomSize
  atomFreeIndex := second.atomFreeIndex.trans first.atomFreeIndex
  atomCount := second.atomCount.trans first.atomCount
  heapTop := second.heapTop.trans first.heapTop
  strings := fun p => (second.strings p).trans (first.strings p)
  aside := fun i s here symbol => by
    obtain ⟨s', here', place⟩ := first.aside i s here symbol
    have type : s'.atomType = s.atomType := by
      obtain ⟨p, slot, there⟩ := slot_of here
      obtain ⟨q, slot', there'⟩ := slot_of here'
      rw [first.atomArray, slot] at slot'
      cases slot'
      have equal := first.strings p
      rw [there, there', Option.map_some, Option.map_some, Option.some.injEq] at equal
      simpa [StringStruct.core] using congrArg StringStruct.atomType equal
    obtain ⟨s'', here'', place'⟩ := second.aside i s' here' (type.trans symbol)
    exact ⟨s'', here'', place'.trans place⟩

theorem same_string (same : SameAtoms rt rt') (here : rt'.strings p = some s') :
    ∃ s, rt.strings p = some s ∧ s'.core = s.core := by
  have equal := same.strings p
  rw [here, Option.map_some] at equal
  obtain ⟨s, known, core⟩ := Option.map_eq_some_iff.1 equal.symm
  exact ⟨s, known, core.symm⟩

theorem same_string_back (same : SameAtoms rt rt') (here : rt.strings p = some s) :
    ∃ s', rt'.strings p = some s' ∧ s'.core = s.core := by
  have equal := same.strings p
  rw [here, Option.map_some] at equal
  exact Option.map_eq_some_iff.1 equal

theorem same_atom (same : SameAtoms rt rt') (here : rt'.atom? i = some s') :
    ∃ s, rt.atom? i = some s ∧ s'.core = s.core := by
  obtain ⟨p, slot, there⟩ := slot_of here
  rw [same.atomArray] at slot
  rw [atom?_of slot]
  exact same_string same there

theorem core_fields (core : s'.core = s.core) :
    s'.text = s.text ∧ s'.hash = s.hash ∧ s'.atomType = s.atomType := by
  simpa [StringStruct.core, and_assoc] using core

theorem same_atom_back (same : SameAtoms rt rt') (here : rt.atom? i = some s) :
    ∃ s', rt'.atom? i = some s' ∧ s'.core = s.core := by
  obtain ⟨p, slot, there⟩ := slot_of here
  have slot' : rt'.atomArray i = .atom p := by rw [same.atomArray, slot]
  rw [atom?_of slot']
  exact same_string_back same there

theorem same_hashed (same : SameAtoms rt rt') : rt'.Hashed i ↔ rt.Hashed i := by
  constructor
  · rintro ⟨s', here, other⟩
    obtain ⟨s, here', core⟩ := same_atom same here
    exact ⟨s, here', by rw [← (core_fields core).2.2]; exact other⟩
  · rintro ⟨s, here, other⟩
    obtain ⟨s', here', core⟩ := same_atom_back same here
    exact ⟨s', here', by rw [(core_fields core).2.2]; exact other⟩

theorem interned_of_same (inv : Interned rt) (same : SameAtoms rt rt')
    (filed : Filed rt'.links rt'.bucketOf rt'.Hashed)
    (power : 0 < rt'.atomHashSize ∧ rt'.atomHashSize &&& (rt'.atomHashSize - 1) = 0) :
    Interned rt' where
  inside := by
    rw [same.atomArray, same.atomSize]
    exact inv.inside
  there := by
    intro i p slot
    rw [same.atomArray] at slot
    obtain ⟨s, t, here, type, stored⟩ := inv.there i p slot
    obtain ⟨s', here', core⟩ := same_string_back same here
    exact ⟨s', t, here', (core_fields core).2.2.trans type, stored⟩
  apart := by
    rw [same.atomArray]
    exact inv.apart
  slotted := by
    intro p s' here' isAtom
    obtain ⟨s, here, core⟩ := same_string same here'
    rw [same.atomArray]
    exact inv.slotted p s here (by rwa [← (core_fields core).2.2])
  below := by
    intro p there
    rw [same.heapTop]
    obtain ⟨s', here'⟩ := Option.ne_none_iff_exists'.1 there
    obtain ⟨s, here, -⟩ := same_string same here'
    exact inv.below p (by simp [here])
  null := by
    intro positive
    rw [same.atomSize] at positive
    obtain ⟨s, here, symbol⟩ := inv.null positive
    obtain ⟨s', here', core⟩ := same_atom_back same here
    exact ⟨s', here', (core_fields core).2.2.trans symbol⟩
  symbols := by
    intro i s' here' symbol
    obtain ⟨s, here, core⟩ := same_atom same here'
    have symbol' : s.atomType = some .symbol := by rw [← (core_fields core).2.2, symbol]
    obtain ⟨s'', kept, place⟩ := same.aside i s here symbol'
    rw [here'] at kept
    cases kept
    exact place.trans (inv.symbols i s here symbol')
  free := by
    have nexts : rt'.freeNext = rt.freeNext := by
      funext i
      rw [AtomRuntime.freeNext, same.atomArray, AtomRuntime.freeNext]
    rw [nexts, same.atomFreeIndex, same.atomArray, same.atomSize, same.atomCount]
    exact inv.free
  filed := filed
  power := power
  hashes := by
    intro i s' t here' type other
    obtain ⟨s, here, core⟩ := same_atom same here'
    obtain ⟨text, hash, type'⟩ := core_fields core
    rw [hash, text]
    exact inv.hashes i s t here (by rw [← type', type]) other
  unique := by
    intro i j s₁ s₂ here₁ here₂ types other units
    obtain ⟨r₁, there₁, core₁⟩ := same_atom same here₁
    obtain ⟨r₂, there₂, core₂⟩ := same_atom same here₂
    obtain ⟨text₁, -, type₁⟩ := core_fields core₁
    obtain ⟨text₂, -, type₂⟩ := core_fields core₂
    exact inv.unique i j r₁ r₂ there₁ there₂ (by rw [← type₁, ← type₂, types]) (by rwa [← type₁])
      (by rw [← text₁, ← text₂, units])
  numeric := by
    intro i s' here' type n number
    obtain ⟨s, here, core⟩ := same_atom same here'
    obtain ⟨text, -, type'⟩ := core_fields core
    rw [text] at number
    exact inv.numeric i s here (by rw [← type', type]) n number

theorem hashed_inside (inv : Interned rt) (hashed : rt.Hashed i) :
    i ∈ List.range rt.atomSize ∧ 0 < i := by
  obtain ⟨s, here, other⟩ := hashed
  obtain ⟨p, slot, -⟩ := slot_of here
  have inside := inv.inside i p slot
  refine ⟨List.mem_range.2 inside, Nat.pos_of_ne_zero ?_⟩
  rintro rfl
  obtain ⟨s', here', symbol⟩ := inv.null (by omega)
  rw [here] at here'
  cases here'
  exact other symbol

theorem bucket_lt (inv : Interned rt) (i : Nat) : rt.bucketOf i < rt.atomHashSize := by
  have bound : rt.bucketOf i ≤ rt.atomHashSize - 1 := Nat.and_le_right
  have positive := inv.power.1
  omega

end Slots

section Chains
variable {rt rt' : AtomRuntime} {i : Nat} {p : Addr} {s : StringStruct}

theorem only_slot (inv : Interned rt) (slot : rt.atomArray i = .atom p) (j : Nat) :
    (decide (rt.atomArray j = .atom p) = true) ↔ j = i := by
  rw [decide_eq_true_eq]
  refine ⟨fun same => inv.apart j i p same slot, ?_⟩
  rintro rfl
  exact slot

theorem getAtomIndex_eq (inv : Interned rt) (slot : rt.atomArray i = .atom p) :
    jsGetAtomIndex rt p = some i := by
  obtain ⟨s, t, here, type, -⟩ := inv.there i p slot
  have atom : rt.atom? i = some s := by rw [atom?_of slot, here]
  unfold jsGetAtomIndex
  simp only [here, Option.bind_eq_bind, Option.bind_some]
  by_cases symbol : s.atomType = some .symbol
  · rw [if_pos symbol, inv.symbols i s atom symbol]
  · rw [if_neg symbol]
    obtain ⟨r, walked, hits, misses⟩ := walk_filed inv.filed
      (fun j => decide (rt.atomArray j = .atom p)) (fun j hashed => (hashed_inside inv hashed).1)
      (Nat.le_of_eq (List.length_range ..)) (rt.bucketOf i)
    rw [← bucketOf_of atom]
    change (walk rt.next _ rt.atomSize (link (rt.atomHash (rt.bucketOf i)))).bind id = _
    rw [show walk rt.next _ _ (link (rt.atomHash (rt.bucketOf i))) = _ from walked, Option.bind_some]
    cases r with
    | none =>
      have missed := misses rfl i ⟨s, atom, symbol⟩ rfl
      simp [slot] at missed
    | some j =>
      obtain ⟨-, -, hit⟩ := hits j rfl
      rw [(only_slot inv slot j).1 hit]
      rfl

theorem setHashNext_spec (apart : ∀ i j p, rt.atomArray i = .atom p → rt.atomArray j = .atom p → i = j)
    (hashed : rt.Hashed i) (n : Nat) :
    SameAtoms rt (rt.setHashNext i n) ∧ (rt.setHashNext i n).count = rt.count ∧
      (rt.setHashNext i n).next = Function.update rt.next i (link n) ∧
      ∀ j, (rt.setHashNext i n).bucketOf j = rt.bucketOf j := by
  obtain ⟨s, here, other⟩ := hashed
  obtain ⟨p, slot, there⟩ := slot_of here
  have set : rt.setHashNext i n = rt.set p (some { s with hashNext := n }) := by
    simp [AtomRuntime.setHashNext, slot, there]
  have atoms : ∀ j, (rt.set p (some { s with hashNext := n })).atom? j =
      if j = i then some { s with hashNext := n } else rt.atom? j := by
    intro j
    split
    · next same =>
      subst same
      simp [AtomRuntime.atom?, AtomRuntime.set, slot]
    · next distinct =>
      cases mine : rt.atomArray j with
      | free m => simp [AtomRuntime.atom?, AtomRuntime.set, mine]
      | atom q =>
        have elsewhere : q ≠ p := by
          rintro rfl
          exact distinct (apart j i q mine slot)
        simp [AtomRuntime.atom?, AtomRuntime.set, mine, elsewhere]
  rw [set]
  refine ⟨⟨rfl, rfl, rfl, rfl, rfl, fun q => ?_, fun j r here' symbol => ?_⟩, ?_, ?_, fun j => ?_⟩
  · by_cases same : q = p
    · subst same
      simp [there, StringStruct.core]
    · simp [same]
  · refine ⟨r, ?_, rfl⟩
    rw [atoms, if_neg]
    · exact here'
    · rintro rfl
      rw [here] at here'
      cases here'
      exact other symbol
  · funext q
    by_cases same : q = p
    · subst same
      simp [AtomRuntime.count, there]
    · simp [AtomRuntime.count, same]
  · funext j
    rw [AtomRuntime.next, atoms]
    by_cases same : j = i
    · subst same
      simp
    · simp [same, AtomRuntime.next]
  · rw [AtomRuntime.bucketOf, atoms]
    by_cases same : j = i
    · subst same
      simp [AtomRuntime.bucketOf, here, AtomRuntime.set]
    · simp [same, AtomRuntime.bucketOf, AtomRuntime.set]

theorem unlinkAtom_spec (inv : Interned rt) (slot : rt.atomArray i = .atom p)
    (here : rt.strings p = some s) :
    ∃ rt₁, unlinkAtom rt p s = some (i, rt₁) ∧ SameAtoms rt rt₁ ∧
      rt₁.count = rt.count ∧ rt₁.atomHashSize = rt.atomHashSize ∧
      Filed rt₁.links rt₁.bucketOf fun j => j ≠ i ∧ rt.Hashed j := by
  have atom : rt.atom? i = some s := by rw [atom?_of slot, here]
  by_cases symbol : s.atomType = some .symbol
  · refine ⟨rt, by rw [unlinkAtom, if_pos symbol, inv.symbols i s atom symbol], .refl, rfl, rfl,
      filed_congr inv.filed (fun j => ?_) fun _ _ => rfl⟩
    refine ⟨fun there => there.2, fun hashed => ⟨?_, hashed⟩⟩
    rintro rfl
    obtain ⟨s', here', other⟩ := hashed
    rw [atom] at here'
    cases here'
    exact other symbol
  have hashed : rt.Hashed i := ⟨s, atom, symbol⟩
  obtain ⟨l', unlinks, filed, -, -⟩ := unlink_filed inv.filed
    (fun j => decide (rt.atomArray j = .atom p)) hashed (fun j _ _ => only_slot inv slot j)
    (fun j hashed => (hashed_inside inv hashed).1) (Nat.le_refl _)
  rw [List.length_range, Links.unlink] at unlinks
  unfold unlinkAtom
  rw [if_neg symbol, ← bucketOf_of atom]
  cases first : rt.links.head (rt.bucketOf i) with
  | none => simp [first] at unlinks
  | some j =>
    rw [first] at unlinks
    have first' : link (rt.atomHash (rt.bucketOf i)) = some j := first
    simp only [first', Option.bind_eq_bind, Option.bind_some]
    by_cases target : rt.atomArray j = .atom p
    · rw [if_pos target]
      simp only [target, decide_true, if_true, Option.some.injEq, Prod.mk.injEq] at unlinks
      obtain ⟨rfl, rfl⟩ := unlinks
      refine ⟨_, rfl, ⟨rfl, rfl, rfl, rfl, rfl, fun _ => rfl,
        fun _ s here _ => ⟨s, here, rfl⟩⟩, rfl, rfl, ?_⟩
      refine filed_of_same filed (fun b => ?_) (fun _ _ => rfl) (fun _ => Iff.rfl) fun _ _ => rfl
      show link (Function.update rt.atomHash (rt.bucketOf j) s.hashNext b) =
        Function.update (fun b => link (rt.atomHash b)) (rt.bucketOf j) (rt.next j) b
      rw [next_of atom]
      by_cases same : b = rt.bucketOf j
      · subst same
        rw [Function.update_self, Function.update_self]
      · rw [Function.update_of_ne same, Function.update_of_ne same]
    · rw [if_neg target]
      simp only [target, decide_false, Bool.false_eq_true, if_false] at unlinks
      obtain ⟨⟨i₀, i₁⟩, before, found⟩ := Option.map_eq_some_iff.1 unlinks
      simp only [Prod.mk.injEq] at found
      obtain ⟨rfl, rfl⟩ := found
      have before' : predecessor rt.next (fun j => decide (rt.atomArray j = .atom p)) rt.atomSize j =
          some (i₀, i₁) := before
      have hashed₀ := (predecessor_filed inv.filed _ first before).1
      obtain ⟨same, counts, nexts, buckets⟩ := setHashNext_spec inv.apart hashed₀ s.hashNext
      refine ⟨rt.setHashNext i₀ s.hashNext, by simp [before'], same, counts, by simp, ?_⟩
      refine filed_of_same filed (fun b => by simp [AtomRuntime.links]) (fun j _ => ?_)
        (fun _ => Iff.rfl) fun j _ => buckets j
      show (rt.setHashNext i₀ s.hashNext).next j = Function.update rt.next i₀ (rt.next i₁) j
      rw [nexts, next_of atom]

def AtomRuntime.bucketIn (rt : AtomRuntime) (mask i : Nat) : Nat :=
  ((rt.atom? i).map StringStruct.hash).getD 0 &&& mask

theorem resizeChain_spec {rt₀ : AtomRuntime} {mask fuel h : Nat} {newHash : Nat → Nat} {l' : Links Nat}
    {is : List Nat} (inv : Interned rt₀) (same : SameAtoms rt₀ rt) (chain : Chain rt.next (link h) is)
    (hashed : ∀ i ∈ is, rt₀.Hashed i) (nodup : is.Nodup)
    (moves : moveChain (rt₀.bucketIn mask) fuel (link h) ⟨fun b => link (newHash b), rt.next⟩ = some l') :
    ∃ rt' newHash', resizeChain mask fuel h (rt, newHash) = some (rt', newHash') ∧ SameAtoms rt₀ rt' ∧
      rt'.count = rt.count ∧ l' = ⟨fun b => link (newHash' b), rt'.next⟩ ∧
        rt'.atomHashSize = rt.atomHashSize := by
  induction fuel generalizing h rt newHash is with
  | zero =>
    by_cases zero : h = 0
    · subst zero
      cases moves
      exact ⟨rt, newHash, rfl, same, rfl, rfl, rfl⟩
    · simp [link, zero, moveChain] at moves
  | succ fuel ih =>
    by_cases zero : h = 0
    · subst zero
      cases moves
      exact ⟨rt, newHash, rfl, same, rfl, rfl, rfl⟩
    · have here : link h = some h := link_some (by omega)
      rw [here] at chain moves
      cases chain with
      | @link _ rest tail =>
        rw [List.nodup_cons] at nodup
        obtain ⟨s, atom, other⟩ := (same_hashed same).2 (hashed h List.mem_cons_self)
        obtain ⟨s₀, atom₀, core⟩ := same_atom same atom
        have apart : ∀ i j p, rt.atomArray i = .atom p → rt.atomArray j = .atom p → i = j := by
          rw [same.atomArray]
          exact inv.apart
        have bucket : rt₀.bucketIn mask h = s.hash &&& mask := by
          simp [AtomRuntime.bucketIn, atom₀, (core_fields core).2.1]
        obtain ⟨same₁, counts, nexts, -⟩ :=
          setHashNext_spec apart ⟨s, atom, other⟩ (newHash (s.hash &&& mask))
        rw [moveChain] at moves
        dsimp only at moves
        rw [next_of atom] at moves
        rw [next_of atom] at tail
        have pushed : (⟨fun b => link (newHash b), rt.next⟩ : Links Nat).push (rt₀.bucketIn mask h) h =
            ⟨fun b => link (Function.update newHash (s.hash &&& mask) h b),
              (rt.setHashNext h (newHash (s.hash &&& mask))).next⟩ := by
          rw [Links.push, bucket, nexts]
          congr 1
          funext b
          by_cases at_ : b = s.hash &&& mask
          · subst at_
            rw [Function.update_self, Function.update_self, here]
          · rw [Function.update_of_ne at_, Function.update_of_ne at_]
        rw [pushed] at moves
        have tail' : Chain (rt.setHashNext h (newHash (s.hash &&& mask))).next (link s.hashNext) rest := by
          rw [nexts]
          exact chain_beside tail nodup.1 _
        obtain ⟨rt', newHash', resizes, same', counts', links, size⟩ := ih (same.trans same₁) tail'
          (fun i there => hashed i (List.mem_cons_of_mem _ there)) nodup.2 moves
        refine ⟨rt', newHash', ?_, same', counts'.trans counts, links, size.trans (by simp)⟩
        rw [resizeChain, if_neg zero, atom]
        exact resizes

theorem jsResizeAtomHash_spec {newHashSize : Nat} (inv : Interned rt) (positive : 0 < newHashSize)
    (power : newHashSize &&& (newHashSize - 1) = 0) :
    ∃ rt', jsResizeAtomHash rt newHashSize = some rt' ∧ SameAtoms rt rt' ∧ rt'.count = rt.count ∧
      Interned rt' := by
  have listed : ∀ i, rt.Hashed i → i ∈ List.range rt.atomSize := fun i hashed =>
    (hashed_inside inv hashed).1
  -- the loop over the chains, each of which is as it was when its turn comes
  have loop : ∀ n ≤ rt.atomHashSize, ∃ rt' newHash', (List.range n).foldlM
      (fun state i => resizeChain (newHashSize - 1) rt.atomSize (rt.atomHash i) state)
      (rt, fun _ => 0) = some (rt', newHash') ∧ SameAtoms rt rt' ∧ rt'.count = rt.count ∧
      Filed ⟨fun b => link (newHash' b), rt'.next⟩ (rt.bucketIn (newHashSize - 1))
        (fun j => rt.Hashed j ∧ rt.bucketOf j < n) ∧
      (∀ j, ¬ (rt.Hashed j ∧ rt.bucketOf j < n) → rt'.next j = rt.next j) := by
    intro n
    induction n with
    | zero =>
      intro _
      refine ⟨rt, fun _ => 0, rfl, .refl, rfl, ?_, fun _ _ => rfl⟩
      exact filed_congr (filed_empty _ fun _ => rfl) (by simp) fun _ _ => rfl
    | succ n ih =>
      intro within
      obtain ⟨rt₁, newHash₁, looped, same₁, counts₁, filed₁, nexts₁⟩ := ih (by omega)
      obtain ⟨is, chain, nodup, members⟩ := inv.filed n
      have later : ∀ j ∈ is, ¬ (rt.Hashed j ∧ rt.bucketOf j < n) := by
        rintro j there ⟨-, below⟩
        have bucket := ((members j).1 there).2
        omega
      have chain₁ : Chain rt₁.next (link (rt.atomHash n)) is :=
        chain_congr chain fun j there => nexts₁ j (later j there)
      have short : is.length ≤ rt.atomSize := by
        have fewer := (nodup.subperm fun i there => listed i ((members i).1 there).1).length_le
        rwa [List.length_range] at fewer
      obtain ⟨l', moves, filed', beside⟩ := filed_moveChain filed₁ chain₁ nodup later short
      obtain ⟨rt₂, newHash₂, resizes, same₂, counts₂, rfl, -⟩ := resizeChain_spec inv same₁ chain₁
        (fun j there => ((members j).1 there).1) nodup moves
      have split : ∀ j, (rt.Hashed j ∧ rt.bucketOf j < n + 1) ↔
          j ∈ is ∨ (rt.Hashed j ∧ rt.bucketOf j < n) := by
        intro j
        rw [members]
        constructor
        · rintro ⟨hashed, below⟩
          rcases Nat.lt_succ_iff_lt_or_eq.1 below with earlier | here
          · exact .inr ⟨hashed, earlier⟩
          · exact .inl ⟨hashed, here⟩
        · rintro (⟨hashed, here⟩ | ⟨hashed, below⟩)
          · exact ⟨hashed, by omega⟩
          · exact ⟨hashed, by omega⟩
      refine ⟨rt₂, newHash₂, ?_, same₂, counts₂.trans counts₁, filed_congr filed' split fun _ _ => rfl,
        fun j absent => ?_⟩
      · rw [List.range_succ, List.foldlM_append, looped, Option.bind_eq_bind, Option.bind_some,
          List.foldlM_cons, resizes]
        rfl
      · rw [split, not_or] at absent
        exact (beside j absent.1).trans (nexts₁ j absent.2)
  obtain ⟨rt', newHash', looped, same, counts, filed, -⟩ := loop rt.atomHashSize (Nat.le_refl _)
  obtain ⟨rt₂, made⟩ : ∃ rt₂, rt₂ = { rt' with
    atomHash := newHash', atomHashSize := newHashSize, atomCountResize := newHashSize * 2 } := ⟨_, rfl⟩
  have same₂ : SameAtoms rt rt₂ := by
    rw [made]
    exact ⟨same.atomArray, same.atomSize, same.atomFreeIndex, same.atomCount, same.heapTop,
      same.strings, same.aside⟩
  refine ⟨rt₂, ?_, same₂, ?_, interned_of_same inv same₂ ?_ ?_⟩
  · simp [jsResizeAtomHash, power, looped, made, guard]
  · rw [← counts, made]
    rfl
  · refine filed_of_same filed (fun b => by rw [made]; rfl) (fun j _ => by rw [made]; rfl) (fun j => ?_)
      fun j hashed => ?_
    · rw [same_hashed same₂]
      exact ⟨fun hashed => ⟨hashed, bucket_lt inv j⟩, fun hashed => hashed.1⟩
    · obtain ⟨s, atom, -⟩ := hashed.1
      obtain ⟨s', atom', core⟩ := same_atom_back same₂ atom
      rw [bucketOf_of atom', AtomRuntime.bucketIn, atom, (core_fields core).2.1, made]
      rfl
  · rw [made]
    exact ⟨positive, power⟩

end Chains
section Release
variable {rt rt' : AtomRuntime} {i j : Nat} {p q : Addr} {s : StringStruct}

/-- The string of a slot. -/
def AtomRuntime.slot? (rt : AtomRuntime) (i : Nat) : Option Addr :=
  match rt.atomArray i with
  | .atom p => some p
  | .free _ => none

/-- What a string is, whatever its place in the table. -/
def AtomRuntime.entry (rt : AtomRuntime) (p : Addr) : Option (JSString × Option AtomType) :=
  (rt.strings p).map fun s => (s.text, s.atomType)

theorem slot?_eq : rt.slot? i = some p ↔ rt.atomArray i = .atom p := by
  unfold AtomRuntime.slot?
  cases rt.atomArray i <;> simp

theorem entry_of (here : rt.strings p = some s) : rt.entry p = some (s.text, s.atomType) := by
  simp [AtomRuntime.entry, here]

theorem entry_none : rt.entry p = none ↔ rt.strings p = none := by
  simp [AtomRuntime.entry]

theorem string_of {text : JSString} {t : Option AtomType} (here : rt.entry p = some (text, t)) :
    ∃ s, rt.strings p = some s ∧ s.text = text ∧ s.atomType = t := by
  obtain ⟨s, there, same⟩ := Option.map_eq_some_iff.1 here
  cases same
  exact ⟨s, there, rfl, rfl⟩

theorem slot?_same (same : SameAtoms rt rt') : rt'.slot? = rt.slot? := by
  funext i
  rw [AtomRuntime.slot?, same.atomArray, AtomRuntime.slot?]

theorem entry_same (same : SameAtoms rt rt') : rt'.entry = rt.entry := by
  funext p
  cases here : rt.strings p with
  | none =>
    rw [entry_none.2 here, entry_none]
    by_contra there
    obtain ⟨s', here'⟩ := Option.ne_none_iff_exists'.1 there
    obtain ⟨s, known, -⟩ := same_string same here'
    rw [here] at known
    cases known
  | some s =>
    obtain ⟨s', here', core⟩ := same_string_back same here
    obtain ⟨text, -, type⟩ := core_fields core
    rw [entry_of here, entry_of here', text, type]

theorem atom?_free (slot : rt.atomArray i = .free j) : rt.atom? i = none := by
  simp [AtomRuntime.atom?, slot]

theorem count_positive (inv : Interned rt) (slot : rt.atomArray i = .atom p) : 0 < rt.atomCount := by
  obtain ⟨is, -, nodup, members, total⟩ := inv.free
  have inside := inv.inside i p slot
  have shorter : is.length ≤ (List.range rt.atomSize).length - 1 := by
    rw [← List.length_erase_of_mem (List.mem_range.2 inside)]
    refine (nodup.subperm fun j there => ?_).length_le
    have known := (members j).1 there
    refine (List.mem_erase_of_ne ?_).2 (List.mem_range.2 known.1)
    rintro rfl
    exact known.2 p slot
  rw [List.length_range] at shorter
  omega

/-- `JS_FreeAtomStruct` gives the slot of an atom back and frees its string. -/
theorem jsFreeAtomStruct_spec (inv : Interned rt) (slot : rt.atomArray i = .atom p) (positive : 0 < i) :
    ∃ rt', jsFreeAtomStruct rt p = some rt' ∧ Interned rt' ∧
      rt'.slot? = Function.update rt.slot? i none ∧ rt'.entry = Function.update rt.entry p none ∧
      (∀ q, q ≠ p → rt'.count q = rt.count q) ∧ rt'.heapTop = rt.heapTop ∧
      rt'.atomFreeIndex = i ∧ rt'.atomSize = rt.atomSize := by
  obtain ⟨s, t, here, type, stored⟩ := inv.there i p slot
  have atom : rt.atom? i = some s := by rw [atom?_of slot, here]
  obtain ⟨rt₁, off, same, counts, size, filed⟩ := unlinkAtom_spec inv slot here
  obtain ⟨rt', made⟩ : ∃ rt', rt' = { rt₁.set p none with
    atomArray := Function.update rt₁.atomArray i (.free rt₁.atomFreeIndex)
    atomFreeIndex := i
    atomCount := rt₁.atomCount - 1 } := ⟨_, rfl⟩
  have slots : ∀ j q, rt'.atomArray j = .atom q ↔ j ≠ i ∧ rt.atomArray j = .atom q := by
    intro j q
    rw [made, ← same.atomArray]
    by_cases equal : j = i
    · subst equal
      simp
    · simp [equal]
  have strings : ∀ q, rt'.strings q = if q = p then none else rt₁.strings q := by
    intro q
    rw [made]
    by_cases equal : q = p
    · subst equal
      simp
    · simp [equal]
  have atoms : ∀ j, rt'.atom? j = if j = i then none else rt₁.atom? j := by
    intro j
    by_cases equal : j = i
    · subst equal
      rw [if_pos rfl]
      have freed : rt'.atomArray j = .free rt₁.atomFreeIndex := by rw [made]; simp
      exact atom?_free freed
    · rw [if_neg equal]
      cases mine : rt₁.atomArray j with
      | free m =>
        have mine' : rt'.atomArray j = .free m := by
          rw [made]
          simpa [equal] using mine
        rw [atom?_free mine, atom?_free mine']
      | atom q =>
        rw [same.atomArray] at mine
        have elsewhere : q ≠ p := by
          rintro rfl
          exact equal (inv.apart j i q mine slot)
        rw [atom?_of ((slots j q).2 ⟨equal, mine⟩), strings, if_neg elsewhere,
          atom?_of (by rw [same.atomArray, mine])]
  have kept : ∀ j s', rt'.atom? j = some s' → j ≠ i ∧ ∃ s, rt.atom? j = some s ∧ s'.core = s.core := by
    intro j s' there
    rw [atoms] at there
    split at there
    · cases there
    · next other => exact ⟨other, same_atom same there⟩
  have hashed : ∀ j, rt'.Hashed j ↔ j ≠ i ∧ rt.Hashed j := by
    intro j
    rw [← same_hashed same, AtomRuntime.Hashed, atoms]
    by_cases equal : j = i
    · simp [equal]
    · simp [equal, AtomRuntime.Hashed]
  refine ⟨rt', ?_, ?_, ?_, ?_, fun q other => ?_, by rw [made]; exact same.heapTop,
    by rw [made], by rw [made]; exact same.atomSize⟩
  · have counted : 0 < rt₁.atomCount := by
      rw [same.atomCount]
      exact count_positive inv slot
    unfold jsFreeAtomStruct
    simp only [here, off, Option.bind_eq_bind, Option.bind_some, guard, if_pos counted, made]
    rfl
  · exact {
      inside := fun j q there => by
        rw [made]
        exact same.atomSize ▸ inv.inside j q ((slots j q).1 there).2
      there := fun j q there => by
        obtain ⟨other, before⟩ := (slots j q).1 there
        obtain ⟨r, u, known, type', stored'⟩ := inv.there j q before
        obtain ⟨r', known', core⟩ := same_string_back same known
        refine ⟨r', u, ?_, (core_fields core).2.2.trans type', stored'⟩
        rw [strings, if_neg]
        · exact known'
        · rintro rfl
          exact other (inv.apart j i q before slot)
      apart := fun j k q first second =>
        inv.apart j k q ((slots j q).1 first).2 ((slots k q).1 second).2
      slotted := fun q r there isAtom => by
        rw [strings] at there
        split at there
        · cases there
        · next other =>
          obtain ⟨r₀, known, core⟩ := same_string same there
          obtain ⟨j, mine⟩ := inv.slotted q r₀ known (by rwa [← (core_fields core).2.2])
          refine ⟨j, (slots j q).2 ⟨?_, mine⟩⟩
          rintro rfl
          rw [slot] at mine
          cases mine
          exact other rfl
      below := fun q there => by
        rw [strings] at there
        split at there
        · exact absurd rfl there
        · obtain ⟨r, known⟩ := Option.ne_none_iff_exists'.1 there
          obtain ⟨r₀, known₀, -⟩ := same_string same known
          rw [made]
          exact same.heapTop ▸ inv.below q (by simp [known₀])
      null := fun some_ => by
        have first : 0 < rt.atomSize := by
          have size' : rt'.atomSize = rt.atomSize := by rw [made]; exact same.atomSize
          omega
        obtain ⟨r, known, symbol⟩ := inv.null first
        obtain ⟨r', known', core⟩ := same_atom_back same known
        refine ⟨r', ?_, (core_fields core).2.2.trans symbol⟩
        rw [atoms, if_neg (by omega), known']
      symbols := fun j r there symbol => by
        rw [atoms] at there
        split at there
        · cases there
        · obtain ⟨r₀, known, core⟩ := same_atom same there
          have symbol₀ : r₀.atomType = some .symbol := by rw [← (core_fields core).2.2, symbol]
          obtain ⟨r', known', place⟩ := same.aside j r₀ known symbol₀
          rw [there] at known'
          cases known'
          exact place.trans (inv.symbols j r₀ known symbol₀)
      free := by
        obtain ⟨is, chain, nodup, members, total⟩ := inv.free
        have absent : i ∉ is := fun there => ((members i).1 there).2 p slot
        have nexts : ∀ j ∈ is, rt'.freeNext j = rt.freeNext j := by
          intro j there
          have other : j ≠ i := by
            rintro rfl
            exact absent there
          simp [AtomRuntime.freeNext, made, other, same.atomArray]
        refine ⟨i :: is, ?_, List.nodup_cons.2 ⟨absent, nodup⟩, fun j => ?_, ?_⟩
        · have start : link rt'.atomFreeIndex = some i := by
            rw [made]
            exact link_some positive
          have follow : rt'.freeNext i = link rt.atomFreeIndex := by
            simp [AtomRuntime.freeNext, made, same.atomFreeIndex]
          rw [start]
          refine .link ?_
          rw [follow]
          exact chain_congr chain nexts
        · have size' : rt'.atomSize = rt.atomSize := by rw [made]; exact same.atomSize
          rw [List.mem_cons, members, size']
          constructor
          · rintro (rfl | ⟨inside, free⟩)
            · exact ⟨inv.inside _ p slot, fun q there => ((slots _ q).1 there).1 rfl⟩
            · exact ⟨inside, fun q there => free q ((slots j q).1 there).2⟩
          · rintro ⟨inside, free⟩
            by_cases equal : j = i
            · exact .inl equal
            · exact .inr ⟨inside, fun q there => free q ((slots j q).2 ⟨equal, there⟩)⟩
        · have counted := count_positive inv slot
          have sizes : rt'.atomSize = rt.atomSize ∧ rt'.atomCount = rt.atomCount - 1 := by
            rw [made]
            exact ⟨same.atomSize, by rw [← same.atomCount]⟩
          rw [List.length_cons, sizes.1, sizes.2]
          omega
      filed := by
        refine filed_of_same filed (fun b => by rw [made]; rfl) (fun j there => ?_) hashed
          fun j there => ?_
        · show rt'.next j = rt₁.next j
          rw [AtomRuntime.next, atoms, if_neg there.1, AtomRuntime.next]
        · rw [AtomRuntime.bucketOf, atoms, if_neg there.1, AtomRuntime.bucketOf, made]
          rfl
      power := by
        rw [made]
        exact size ▸ inv.power
      hashes := fun j s' u there type' other => by
        obtain ⟨-, s₀, known, core⟩ := kept j s' there
        obtain ⟨text, hash, type₀⟩ := core_fields core
        rw [hash, text]
        exact inv.hashes j s₀ u known (by rw [← type₀, type']) other
      unique := fun j k s₁ s₂ there₁ there₂ types other units => by
        obtain ⟨-, r₁, known₁, core₁⟩ := kept j s₁ there₁
        obtain ⟨-, r₂, known₂, core₂⟩ := kept k s₂ there₂
        obtain ⟨text₁, -, type₁⟩ := core_fields core₁
        obtain ⟨text₂, -, type₂⟩ := core_fields core₂
        exact inv.unique j k r₁ r₂ known₁ known₂ (by rw [← type₁, ← type₂, types]) (by rwa [← type₁])
          (by rw [← text₁, ← text₂, units])
      numeric := fun j s' there type' n number => by
        obtain ⟨-, s₀, known, core⟩ := kept j s' there
        obtain ⟨text, -, type₀⟩ := core_fields core
        rw [text] at number
        exact inv.numeric j s₀ known (by rw [← type₀, type']) n number }
  · funext j
    by_cases equal : j = i
    · subst equal
      simp [AtomRuntime.slot?, made]
    · simp [AtomRuntime.slot?, made, equal, same.atomArray]
  · rw [← entry_same same]
    funext q
    by_cases equal : q = p
    · subst equal
      simp [AtomRuntime.entry, made]
    · simp [AtomRuntime.entry, made, equal]
  · rw [← counts]
    simp [AtomRuntime.count, made, other]

end Release
end QuickJSBridge.Atoms
