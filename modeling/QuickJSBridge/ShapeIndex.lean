import Mathlib
import QuickJSBridge.ShapeTable

/- One shape at a time: its hash table holds each property that is not deleted, once, under the
   bucket of its atom, whatever is added, deleted, moved or compacted. -/
namespace QuickJSBridge.Shapes
open HashChains
open Atoms (JSAtom atomIsTaggedInt)

section Hashes

theorem shapeHash_lt (h val : Nat) : shapeHash h val < 2 ^ 32 := by
  unfold shapeHash
  omega

theorem shapeInitialHash_lt (proto : Option Addr) : shapeInitialHash proto < 2 ^ 32 := by
  rw [shapeInitialHash]
  exact shapeHash_lt _ _

/-- The hash that `add_shape_property` comes to, one property after the other. -/
def contentHash (proto : Option Addr) (prop : List ShapeProperty) : Nat :=
  prop.foldl (fun h pr => shapeHash (shapeHash h pr.atom) pr.flags) (shapeInitialHash proto)

theorem contentHash_append (proto : Option Addr) (prop : List ShapeProperty) (pr : ShapeProperty) :
    contentHash proto (prop ++ [pr]) = shapeHash (shapeHash (contentHash proto prop) pr.atom) pr.flags := by
  rw [contentHash, List.foldl_append, List.foldl_cons, List.foldl_nil, contentHash]

theorem contentHash_lt (proto : Option Addr) (prop : List ShapeProperty) :
    contentHash proto prop < 2 ^ 32 := by
  induction prop using List.reverseRecOn with
  | nil =>
    rw [contentHash, List.foldl_nil]
    exact shapeInitialHash_lt proto
  | append_singleton prop pr ih =>
    rw [contentHash_append]
    exact shapeHash_lt _ _

theorem getShapeHash_lt {h bits : Nat} (within : h < 2 ^ 32) (few : bits ≤ 32) :
    getShapeHash h bits < 2 ^ bits := by
  rw [getShapeHash, Nat.shiftRight_eq_div_pow]
  have split : 2 ^ 32 = 2 ^ bits * 2 ^ (32 - bits) := by rw [← pow_add, Nat.add_sub_cancel' few]
  exact Nat.div_lt_of_lt_mul (by rw [mul_comm, ← split]; exact within)

theorem doubleHashSize_spec {newSize : Nat} : ∀ (fuel hashSize : Nat), 1 ≤ hashSize →
    newSize ≤ hashSize + fuel → ∃ r, doubleHashSize newSize fuel hashSize = some r ∧ 1 ≤ r := by
  intro fuel
  induction fuel with
  | zero =>
    intro hashSize positive enough
    exact ⟨hashSize, by rw [doubleHashSize, if_neg (by omega)], positive⟩
  | succ fuel ih =>
    intro hashSize positive enough
    by_cases small : hashSize < newSize
    · obtain ⟨r, doubles, more⟩ := ih (2 * hashSize) (by omega) (by omega)
      exact ⟨r, by rw [doubleHashSize, if_pos small, doubles], more⟩
    · exact ⟨hashSize, by rw [doubleHashSize, if_neg small], positive⟩

theorem halveHashSize_spec {newSize : Nat} (some_ : 1 ≤ newSize) : ∀ (fuel hashSize : Nat),
    1 ≤ hashSize → hashSize ≤ fuel → ∃ r, halveHashSize newSize fuel hashSize = some r ∧ 1 ≤ r := by
  intro fuel
  induction fuel with
  | zero =>
    intro hashSize positive enough
    omega
  | succ fuel ih =>
    intro hashSize positive enough
    by_cases large : newSize ≤ hashSize / 2
    · obtain ⟨r, halves, more⟩ := ih (hashSize / 2) (by omega) (by omega)
      exact ⟨r, by rw [halveHashSize, if_pos large, halves], more⟩
    · exact ⟨hashSize, by rw [halveHashSize, if_neg large], positive⟩

end Hashes

section Places
variable {prop : List ShapeProperty} {pr : ShapeProperty} {i j : Nat} {α : Type}

theorem atomAt_of (there : prop[i]? = some pr) : atomAt prop i = pr.atom := by
  simp [atomAt, there]

theorem atomAt_lt (live : atomAt prop i ≠ 0) : i < prop.length := by
  by_contra outside
  exact live (by simp [atomAt, List.getElem?_eq_none (Nat.le_of_not_lt outside)])

theorem atomAt_beyond (outside : prop.length ≤ i) : atomAt prop i = 0 := by
  by_contra live
  exact absurd (atomAt_lt live) (Nat.not_lt.2 outside)

theorem property_at (live : atomAt prop i ≠ 0) : ∃ pr, prop[i]? = some pr ∧ pr.atom = atomAt prop i := by
  obtain ⟨pr, there⟩ : ∃ pr, prop[i]? = some pr := ⟨_, List.getElem?_eq_getElem (atomAt_lt live)⟩
  exact ⟨pr, there, (atomAt_of there).symm⟩

theorem atomAt_append (i : Nat) :
    atomAt (prop ++ [pr]) i = if i = prop.length then pr.atom else atomAt prop i := by
  by_cases last : i = prop.length
  · subst last
    simp [atomAt]
  · rw [if_neg last]
    by_cases inside : i < prop.length
    · simp [atomAt, List.getElem?_append_left inside]
    · have beyond : (prop ++ [pr]).length ≤ i := by
        rw [List.length_append, List.length_singleton]
        omega
      rw [atomAt_beyond beyond, atomAt_beyond (by omega)]

theorem atomAt_set (inside : i < prop.length) (j : Nat) :
    atomAt (prop.set i pr) j = if j = i then pr.atom else atomAt prop j := by
  by_cases here : j = i
  · subst here
    simp [atomAt, inside]
  · simp [atomAt, List.getElem?_set_ne (Ne.symm here), here]

theorem zip_set {β : Type} (l : List β) (m : List α) (i : Nat) (a : β) (b : α) :
    (l.set i a).zip (m.set i b) = (l.zip m).set i (a, b) := by
  induction l generalizing m i with
  | nil => simp
  | cons x l ih =>
    cases m with
    | nil => simp
    | cons y m =>
      cases i with
      | zero => rfl
      | succ i => simp [ih]

theorem zip_append_set {β : Type} {l : List β} {m : List α} (room : l.length < m.length) (a : β) (b : α) :
    (l ++ [a]).zip (m.set l.length b) = l.zip m ++ [(a, b)] := by
  induction l generalizing m with
  | nil =>
    cases m with
    | nil => simp at room
    | cons y m => simp
  | cons x l ih =>
    cases m with
    | nil => simp at room
    | cons y m =>
      rw [List.length_cons, List.length_cons] at room
      simp [ih (by omega : l.length < m.length)]

theorem length_reallocProp (values : List (Option α)) (newSize : Nat) :
    (reallocProp values newSize).length = newSize := by
  rw [reallocProp, List.length_append, List.length_take, List.length_replicate]
  omega

theorem zip_reallocProp {β : Type} {l : List β} {values : List (Option α)} {newSize : Nat}
    (room : l.length ≤ newSize) (before : l.length ≤ values.length) :
    l.zip (reallocProp values newSize) = l.zip values := by
  refine List.ext_getElem? fun i => ?_
  by_cases inside : i < l.length
  · have same : (reallocProp values newSize)[i]? = values[i]? := by
      rw [reallocProp, List.getElem?_append_left (by rw [List.length_take]; omega),
        List.getElem?_take_of_lt (by omega)]
    simp [List.zip, List.getElem?_zipWith, same]
  · rw [List.getElem?_eq_none, List.getElem?_eq_none] <;> rw [List.length_zip] <;> omega

end Places

section Valid
variable {sh : Shape} {prop : List ShapeProperty} {pr : ShapeProperty} {atom : JSAtom} {i mask : Nat}

def Indexed (index : Links Nat) (prop : List ShapeProperty) (mask : Nat) : Prop :=
  Filed index (fun i => atomAt prop i &&& mask) fun i => atomAt prop i ≠ 0

structure Shape.Valid (sh : Shape) : Prop where
  room : sh.prop.length ≤ sh.propSize
  initial : propInitialSize ≤ sh.propSize
  bounded : sh.propSize ≤ 2 ^ 27
  indexed : Indexed sh.index sh.prop sh.propHashMask
  distinct : ∀ i j, atomAt sh.prop i = atomAt sh.prop j → atomAt sh.prop i ≠ 0 → i = j
  deleted : sh.deletedPropCount + (sh.prop.filter fun pr => pr.atom ≠ 0).length = sh.prop.length
  small : ∀ i, atomIsTaggedInt (atomAt sh.prop i) = true → sh.hasSmallArrayIndex = true

theorem live_listed (live : atomAt prop i ≠ 0) : i ∈ List.range prop.length :=
  List.mem_range.2 (atomAt_lt live)

theorem indexed_nil (mask : Nat) : Indexed ⟨fun _ => none, fun _ => none⟩ [] mask :=
  filed_congr (filed_empty _ fun _ => rfl) (by simp [atomAt]) fun _ _ => rfl

theorem indexed_push {index : Links Nat} (inv : Indexed index prop mask) (named : pr.atom ≠ 0) :
    Indexed (index.push (pr.atom &&& mask) prop.length) (prop ++ [pr]) mask := by
  have before : Filed index (fun i => atomAt (prop ++ [pr]) i &&& mask) (fun i => atomAt prop i ≠ 0) := by
    refine filed_congr inv (fun _ => Iff.rfl) fun i live => ?_
    rw [atomAt_append, if_neg (Nat.ne_of_lt (atomAt_lt live))]
  have pushed := filed_push (i := prop.length) before (by simp [atomAt_beyond (Nat.le_refl _)])
  rw [atomAt_append, if_pos rfl] at pushed
  refine filed_congr pushed (fun i => ?_) fun _ _ => rfl
  rw [atomAt_append]
  by_cases last : i = prop.length
  · simp [last, named]
  · simp [last]

theorem indexed_fill (prop : List ShapeProperty) (mask : Nat) (index : Links Nat) :
    Indexed (fillIndex prop mask index) prop mask := by
  have filled : Filed (((List.range prop.length).filter fun i => atomAt prop i ≠ 0).foldl
        (fun index i => index.push (atomAt prop i &&& mask) i) ⟨fun _ => none, index.next⟩)
      (fun i => atomAt prop i &&& mask)
      (fun i => i ∈ ((List.range prop.length).filter fun i => atomAt prop i ≠ 0) ∨ False) :=
    filed_refill (filed_empty ⟨fun _ => none, index.next⟩ fun _ => rfl) (List.nodup_range.filter _)
      (fun _ _ => id)
  rw [List.foldl_filter] at filled
  have same : Indexed (fillIndex prop mask index) prop mask := by
    refine filed_of_same filled (fun b => ?_) (fun i _ => ?_) (fun i => ?_) fun _ _ => rfl
    · simp [fillIndex]
    · simp [fillIndex]
    · simp only [List.mem_filter, decide_eq_true_eq, or_false]
      exact ⟨fun live => ⟨live_listed live, live⟩, fun live => live.2⟩
  exact same

theorem find_place (valid : sh.Valid) (named : atom ≠ 0) :
    ∃ r, walk sh.index.next (sh.hasAtom atom) sh.prop.length
        (sh.index.head (atom &&& sh.propHashMask)) = some r ∧
      ∀ i, r = some i ↔ atomAt sh.prop i = atom := by
  obtain ⟨r, finds, hit, miss⟩ := walk_filed valid.indexed (sh.hasAtom atom)
    (fun i live => live_listed live) (by rw [List.length_range]) (atom &&& sh.propHashMask)
  refine ⟨r, finds, fun i => ⟨fun found => ?_, fun mine => ?_⟩⟩
  · simpa [Shape.hasAtom] using (hit i (by rw [found]; rfl)).2.2
  · cases found : r with
    | none =>
      have other := miss found i (by rw [mine]; exact named) (by rw [mine])
      simp [Shape.hasAtom, mine] at other
    | some j =>
      obtain ⟨live, -, same⟩ := hit j (by rw [found]; rfl)
      have equal : atomAt sh.prop j = atom := by simpa [Shape.hasAtom] using same
      rw [valid.distinct j i (equal.trans mine.symm) live]

theorem valid_new (proto : Option Addr) (hash refCount : Nat) (isHashed : Bool) :
    Shape.Valid ⟨refCount, isHashed, false, hash, propInitialHashSize - 1, propInitialSize, 0, [],
      ⟨fun _ => none, fun _ => none⟩, proto⟩ where
  room := Nat.zero_le _
  initial := Nat.le_refl _
  bounded := by norm_num [propInitialSize]
  indexed := indexed_nil _
  distinct := fun i j _ live => absurd (by simp [atomAt]) live
  deleted := rfl
  small := fun i tagged => by simp [atomAt, atomIsTaggedInt, Atoms.atomTagInt] at tagged

theorem Shape.Valid.relabel (valid : sh.Valid) (refCount hash : Nat) (isHashed : Bool) (proto : Option Addr) :
    Shape.Valid { sh with refCount := refCount, hash := hash, isHashed := isHashed, proto := proto } :=
  ⟨valid.room, valid.initial, valid.bounded, valid.indexed, valid.distinct, valid.deleted, valid.small⟩

theorem Shape.Valid.resized (valid : sh.Valid) {newSize newHashSize : Nat}
    (room : sh.propSize ≤ newSize) (bounded : newSize ≤ 2 ^ 27) :
    (sh.resized newSize newHashSize).Valid where
  room := Nat.le_trans valid.room room
  initial := Nat.le_trans valid.initial room
  bounded := bounded
  indexed := by
    by_cases other : newHashSize ≠ sh.propHashMask + 1
    · simp only [Shape.resized, if_pos other]
      exact indexed_fill _ _ _
    · have same : newHashSize - 1 = sh.propHashMask := by omega
      simp only [Shape.resized, if_neg other, same]
      exact valid.indexed
  distinct := valid.distinct
  deleted := valid.deleted
  small := valid.small

theorem Shape.Valid.extended (valid : sh.Valid) {propFlags : Nat} (room : sh.prop.length < sh.propSize)
    (named : atom ≠ 0) (fresh : ∀ i, atomAt sh.prop i ≠ atom) : (sh.extended atom propFlags).Valid where
  room := by
    simp only [Shape.extended, List.length_append, List.length_singleton]
    exact room
  initial := valid.initial
  bounded := valid.bounded
  indexed := by
    have pushed := @indexed_push sh.prop ⟨atom, propFlags⟩ sh.propHashMask sh.index valid.indexed named
    exact pushed
  distinct := by
    intro i j same live
    simp only [Shape.extended, atomAt_append] at same live
    by_cases last : i = sh.prop.length
    · by_cases last' : j = sh.prop.length
      · rw [last, last']
      · rw [if_pos last, if_neg last'] at same
        exact absurd same.symm (fresh j)
    · by_cases last' : j = sh.prop.length
      · rw [if_neg last, if_pos last'] at same
        exact absurd same (fresh i)
      · rw [if_neg last, if_neg last'] at same
        rw [if_neg last] at live
        exact valid.distinct i j same live
  deleted := by
    have before := valid.deleted
    simp only [Shape.extended, List.filter_append, List.length_append, List.length_singleton]
    simp only [ne_eq, decide_not, List.filter_cons, named, decide_false, Bool.not_false, if_true,
      List.filter_nil, List.length_singleton] at before ⊢
    omega
  small := by
    intro i tagged
    simp only [Shape.extended, atomAt_append] at tagged ⊢
    by_cases last : i = sh.prop.length
    · rw [if_pos last] at tagged
      rw [tagged, Bool.or_true]
    · rw [if_neg last] at tagged
      rw [valid.small i tagged, Bool.true_or]

theorem Shape.Valid.removed (valid : sh.Valid) (there : sh.prop[i]? = some pr) (named : pr.atom ≠ 0) :
    ∃ index, sh.index.unlink (sh.hasAtom pr.atom) sh.prop.length (pr.atom &&& sh.propHashMask) =
        some (i, index) ∧
      Shape.Valid { sh with
        index := index
        deletedPropCount := sh.deletedPropCount + 1
        prop := sh.prop.set i ⟨0, 0⟩ } := by
  have mine := atomAt_of there
  have live : atomAt sh.prop i ≠ 0 := by rwa [mine]
  have inside := atomAt_lt live
  have atoms : ∀ j, atomAt (sh.prop.set i ⟨0, 0⟩) j = if j = i then 0 else atomAt sh.prop j :=
    atomAt_set inside
  obtain ⟨index, unlinks, filed, -⟩ := unlink_filed valid.indexed (sh.hasAtom pr.atom) live
    (fun j other same => by
      rw [Shape.hasAtom, decide_eq_true_eq, ← mine]
      exact ⟨fun equal => valid.distinct j i equal other, fun equal => by rw [equal]⟩)
    (fun j other => live_listed other) (by rw [List.length_range])
  rw [mine] at unlinks
  refine ⟨index, unlinks, ?_, valid.initial, valid.bounded, ?_, ?_, ?_, ?_⟩
  · rw [List.length_set]
    exact valid.room
  · refine filed_congr filed (fun j => ?_) fun j other => ?_
    · rw [atoms]
      by_cases here : j = i <;> simp [here]
    · rw [atoms, if_neg other.1]
  · intro j k same other
    rw [atoms, atoms] at same
    rw [atoms] at other
    by_cases here : j = i
    · simp [here] at other
    · by_cases here' : k = i
      · simp only [here, here', if_false, if_true] at same other
        exact absurd same other
      · simp only [here, here', if_false] at same other
        exact valid.distinct j k same other
  · have before := valid.deleted
    have spot : sh.prop[i] = pr := by rw [List.getElem?_eq_getElem inside] at there; exact Option.some.inj there
    have fewer := List.countP_set (p := fun pr : ShapeProperty => decide (pr.atom ≠ 0)) (a := ⟨0, 0⟩) inside
    have positive : 0 < List.countP (fun pr : ShapeProperty => decide (pr.atom ≠ 0)) sh.prop :=
      List.countP_pos_iff.2 ⟨pr, List.mem_of_getElem? there, by simpa using named⟩
    rw [← List.countP_eq_length_filter] at before ⊢
    rw [List.length_set]
    simp only [spot, named, ne_eq, not_false_eq_true, decide_true, if_true, not_true_eq_false, decide_false,
      Bool.false_eq_true, if_false, Nat.add_zero] at fewer positive before ⊢
    omega
  · intro j tagged
    rw [atoms] at tagged
    by_cases here : j = i
    · simp [here, atomIsTaggedInt, Atoms.atomTagInt] at tagged
    · rw [if_neg here] at tagged
      exact valid.small j tagged

theorem Shape.Valid.reflagged (valid : sh.Valid) (there : sh.prop[i]? = some pr) (flags : Nat) :
    Shape.Valid { sh with prop := sh.prop.set i { pr with flags := flags } } := by
  have inside : i < sh.prop.length := (List.getElem?_eq_some_iff.1 there).1
  have atoms : ∀ j, atomAt (sh.prop.set i { pr with flags := flags }) j = atomAt sh.prop j := by
    intro j
    rw [atomAt_set inside]
    by_cases here : j = i
    · rw [if_pos here, here, atomAt_of there]
    · rw [if_neg here]
  refine ⟨?_, valid.initial, valid.bounded, ?_, ?_, ?_, ?_⟩
  · rw [List.length_set]
    exact valid.room
  · exact filed_congr valid.indexed (fun j => by rw [atoms]) fun j _ => by rw [atoms]
  · intro j k same live
    rw [atoms, atoms] at same
    rw [atoms] at live
    exact valid.distinct j k same live
  · have before := valid.deleted
    have spot : sh.prop[i] = pr := by rw [List.getElem?_eq_getElem inside] at there; exact Option.some.inj there
    have fewer := List.countP_set (p := fun pr : ShapeProperty => decide (pr.atom ≠ 0))
      (a := { pr with flags := flags }) inside
    have positive : pr.atom ≠ 0 → 0 < List.countP (fun pr : ShapeProperty => decide (pr.atom ≠ 0)) sh.prop :=
      fun named => List.countP_pos_iff.2 ⟨pr, List.mem_of_getElem? there, by simpa using named⟩
    rw [← List.countP_eq_length_filter] at before ⊢
    rw [List.length_set]
    rw [spot] at fewer
    by_cases named : pr.atom = 0
    · simp only [named, ne_eq, not_true_eq_false, decide_false, Bool.false_eq_true, if_false, Nat.add_zero,
        Nat.sub_zero] at fewer before ⊢
      omega
    · have some_ := positive named
      simp only [named, ne_eq, not_false_eq_true, decide_true, if_true] at fewer some_ before ⊢
      omega
  · intro j tagged
    rw [atoms] at tagged
    exact valid.small j tagged

theorem distinct_iff : (∀ i j, atomAt prop i = atomAt prop j → atomAt prop i ≠ 0 → i = j) ↔
    prop.Pairwise fun a b => a.atom = b.atom → a.atom = 0 := by
  rw [List.pairwise_iff_getElem]
  have at_ : ∀ i (inside : i < prop.length), atomAt prop i = prop[i].atom := fun i inside =>
    atomAt_of (List.getElem?_eq_getElem inside)
  constructor
  · intro distinct i j inside inside' less same
    by_contra live
    exact Nat.ne_of_lt less (distinct i j (by rw [at_ i inside, at_ j inside', same]) (by rwa [at_ i inside]))
  · intro pairs i j same live
    have inside := atomAt_lt live
    have inside' := atomAt_lt (same ▸ live)
    rw [at_ i inside, at_ j inside'] at same
    rw [at_ i inside] at live
    rcases Nat.lt_trichotomy i j with less | equal | more
    · exact absurd (pairs i j inside inside' less same) live
    · exact equal
    · exact absurd (pairs j i inside' inside more same.symm) (same ▸ live)

section Compacting
variable {α : Type}

def isLive (slot : ShapeProperty × Option α) : Bool := slot.1.atom ≠ 0

theorem compactLoop_spec (rest : List ShapeProperty) : ∀ (i : Nat) (c : Compacted α),
    c.kept.length ≤ i → i + rest.length ≤ c.values.length → (∀ pr ∈ c.kept, pr.atom ≠ 0) →
    Indexed c.index c.kept mask →
    (compactLoop mask rest i c).kept = c.kept ++ rest.filter (fun pr => pr.atom ≠ 0) ∧
      (compactLoop mask rest i c).kept.zip (compactLoop mask rest i c).values =
        c.kept.zip c.values ++ (rest.zip (c.values.drop i)).filter isLive ∧
      (compactLoop mask rest i c).values.length = c.values.length ∧
      Indexed (compactLoop mask rest i c).index (compactLoop mask rest i c).kept mask := by
  induction rest with
  | nil =>
    intro i c _ _ _ indexed
    simp [compactLoop, indexed]
  | cons pr rest ih =>
    intro i c before enough named indexed
    rw [List.length_cons] at enough
    have inside : i < c.values.length := by omega
    have split : c.values.drop i = c.values[i] :: c.values.drop (i + 1) := List.drop_eq_getElem_cons inside
    by_cases live : pr.atom ≠ 0
    · obtain ⟨kept, zipped, length, indexed'⟩ := ih (i + 1) ⟨c.kept ++ [pr],
          c.index.push (pr.atom &&& mask) c.kept.length, c.values.set c.kept.length (c.values[i]?).join⟩
        (by rw [List.length_append, List.length_singleton]; omega)
        (by rw [List.length_set]; omega)
        (by
          intro pr' member
          rcases List.mem_append.1 member with old | new
          · exact named pr' old
          · rw [List.mem_singleton.1 new]
            exact live)
        (indexed_push indexed live)
      have value : (c.values[i]?).join = c.values[i] := by
        rw [List.getElem?_eq_getElem inside]
        rfl
      rw [compactLoop, if_pos live]
      refine ⟨?_, ?_, ?_, indexed'⟩
      · rw [kept, List.filter_cons_of_pos (by simpa using live), List.append_assoc, List.singleton_append]
      · rw [zipped, zip_append_set (by omega), List.drop_set_of_lt (by omega), value, split,
          List.zip_cons_cons, List.filter_cons_of_pos (by simpa [isLive] using live), List.append_assoc,
          List.singleton_append]
      · rw [length, List.length_set]
    · obtain ⟨kept, zipped, length, indexed'⟩ := ih (i + 1) c (by omega) (by omega) named indexed
      rw [compactLoop, if_neg live]
      refine ⟨?_, ?_, length, indexed'⟩
      · rw [kept, List.filter_cons_of_neg (by simpa using live)]
      · rw [zipped, split, List.zip_cons_cons, List.filter_cons_of_neg (by simpa [isLive] using live)]

theorem compact_spec (valid : sh.Valid) {values : List (Option α)} (room : sh.prop.length ≤ values.length)
    {newSize newHashSize : Nat} (size : newSize = max propInitialSize (sh.prop.length - sh.deletedPropCount)) :
    ∃ c, compactLoop (newHashSize - 1) sh.prop 0 ⟨[], ⟨fun _ => none, fun _ => none⟩, values⟩ = c ∧
      c.kept.length = sh.prop.length - sh.deletedPropCount ∧ newSize ≤ sh.propSize ∧
      c.kept.zip (reallocProp c.values newSize) = (sh.prop.zip values).filter isLive ∧
      Shape.Valid { sh with
        propHashMask := newHashSize - 1
        propSize := newSize
        deletedPropCount := 0
        prop := c.kept
        index := c.index } := by
  obtain ⟨kept, zipped, length, indexed⟩ := @compactLoop_spec (newHashSize - 1) α sh.prop 0
    ⟨[], ⟨fun _ => none, fun _ => none⟩, values⟩ (Nat.le_refl _) (by simpa using room) (by simp) (indexed_nil _)
  simp only [List.nil_append, List.zip_nil_left, List.drop_zero] at kept zipped length
  obtain ⟨c, loop⟩ : ∃ c, compactLoop (newHashSize - 1) sh.prop 0
      ⟨[], ⟨fun _ => none, fun _ => none⟩, values⟩ = c := ⟨_, rfl⟩
  rw [loop] at kept zipped length indexed
  have count := valid.deleted
  have total : c.kept.length = sh.prop.length - sh.deletedPropCount := by
    rw [kept]
    omega
  have atoms : ∀ i, atomAt c.kept i ≠ 0 ↔ i < c.kept.length := by
    intro i
    refine ⟨atomAt_lt, fun inside => ?_⟩
    obtain ⟨pr, there⟩ : ∃ pr, c.kept[i]? = some pr := ⟨_, List.getElem?_eq_getElem inside⟩
    have member := List.mem_of_getElem? there
    rw [kept] at member
    rw [atomAt_of there]
    simpa using (List.mem_filter.1 member).2
  have room' := valid.room
  have initial := valid.initial
  have bounded := valid.bounded
  refine ⟨c, loop, total, by omega, ?_, by show c.kept.length ≤ newSize; omega,
    by show propInitialSize ≤ newSize; omega, by show newSize ≤ 2 ^ 27; omega, indexed, ?_, ?_, ?_⟩
  · rw [zip_reallocProp (by omega) (by omega), zipped]
  · refine distinct_iff.2 ?_
    rw [kept]
    exact (distinct_iff.1 valid.distinct).filter _
  · show 0 + (c.kept.filter _).length = c.kept.length
    rw [kept, List.filter_filter, Nat.zero_add]
    simp only [Bool.and_self]
  · intro i tagged
    have live : atomAt c.kept i ≠ 0 := by
      intro none
      simp [none, atomIsTaggedInt, Atoms.atomTagInt] at tagged
    obtain ⟨pr, there, same⟩ := property_at live
    have member := List.mem_of_getElem? there
    rw [kept] at member
    obtain ⟨j, there'⟩ := List.mem_iff_getElem?.1 (List.mem_filter.1 member).1
    exact valid.small j (by rw [atomAt_of there', same]; exact tagged)

end Compacting
end Valid

end QuickJSBridge.Shapes
