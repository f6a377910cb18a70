import Mathlib
import QuickJSBridge.ShapeUpdates

/- The operations on objects, one by one: values and flags that are written, properties that are
   deleted and the rest that moves together, prototypes, and objects that come and go. -/
namespace QuickJSBridge.Shapes
open HashChains
open Atoms (JSAtom atomIsTaggedInt)

variable {α : Type}

section Writing
variable {rt rt' : ShapeRuntime α} {s s' t p q : Addr} {sh sh' : Shape} {o o' : JSObject α}
  {values : List (Option α)} {c : Content α} {atom : JSAtom} {i : Nat} {x : ShapeProperty × Option α}

theorem slot_eq : (contentOf sh o).slots[i]? = some x ↔ sh.prop[i]? = some x.1 ∧ o.prop[i]? = some x.2 := by
  obtain ⟨pr, v⟩ := x
  show (sh.prop.zip o.prop)[i]? = some (pr, v) ↔ _
  rw [List.getElem?_zip_eq_some]

theorem write_object (sound : Sound rt) (mine : rt.objects p = some o) (there : rt.shapes o.shape = some sh)
    (shape : o'.shape = o.shape) (size : o'.prop.length = o.prop.length) :
    Sound (rt.setObject p (some o')) ∧
      ∀ q, (rt.setObject p (some o')).content q = if q = p then some (contentOf sh o') else rt.content q := by
  have heaped := sound.heaped
  have objects := setObject_objects rt p (some o')
  have users : ∀ t, (rt.setObject p (some o')).usersOf t = rt.usersOf t := by
    intro t
    refine Set.ext fun q => ?_
    rw [users_write objects]
    by_cases here : q = p
    · subst here
      constructor
      · rintro (⟨-, x, given, same⟩ | ⟨other, -⟩)
        · rw [Option.some.injEq] at given
          exact ⟨o, mine, by rw [← shape, given, same]⟩
        · exact absurd rfl other
      · intro there
        exact .inl ⟨rfl, o', rfl, by rw [shape, shape_of_user mine there]⟩
    · simp [here]
  refine ⟨⟨⟨heaped.below, fun q x his => ?_, heaped.valid, heaped.sealed, fun t sh₂ his => ?_, heaped.used,
    heaped.alone, fun q x his => ?_⟩, tabled_setObject sound.tabled p _, sound.canonical⟩, fun q => ?_⟩
  · rw [objects] at his
    by_cases here : q = p
    · rw [here]
      exact heaped.inside p o mine
    · rw [if_neg here] at his
      exact heaped.inside q x his
  · rw [users]
    exact heaped.counted t sh₂ his
  · rw [objects] at his
    by_cases here : q = p
    · rw [if_pos here, Option.some.injEq] at his
      subst his
      rw [shape, size]
      exact heaped.fits p o mine
    · rw [if_neg here] at his
      exact heaped.fits q x his
  · by_cases here : q = p
    · subst here
      rw [if_pos rfl]
      refine content_eq ((objects q).trans (if_pos rfl)) ?_
      rw [shape]
      exact there
    · rw [if_neg here]
      exact content_congr ((objects q).trans (if_neg here)) (fun x _ sh₂ old => ⟨sh₂, old, rfl, rfl⟩) heaped

theorem write_private (sound : Sound rt) (mine : rt.objects p = some o) (there : rt.shapes o.shape = some sh)
    (one : sh.refCount = 1) (plain : sh.isHashed = false) (valid : sh'.Valid) (one' : sh'.refCount = 1)
    (plain' : sh'.isHashed = false) (shape : o'.shape = o.shape) (size : o'.prop.length = sh'.propSize) :
    Sound ((rt.setShape o.shape (some sh')).setObject p (some o')) ∧
      ∀ q, ((rt.setShape o.shape (some sh')).setObject p (some o')).content q =
        if q = p then some (contentOf sh' o') else rt.content q := by
  have shapes : ∀ t, (rt.setShape o.shape (some sh')).shapes t =
      if t = o.shape then some sh' else rt.shapes t := by
    intro t
    by_cases here : t = o.shape
    · rw [if_pos here, here, setShape_self]
    · rw [if_neg here, setShape_of_ne _ _ here]
  have replaced : Replaced rt ((rt.setShape o.shape (some sh')).setObject p (some o')) p o.shape sh' o' := by
    refine ⟨fun t => ?_, fun q => ?_, Nat.le_refl _, ?_, .inl shape⟩
    · rw [shape]
      refine (shapes t).trans ?_
      by_cases here : t = o.shape
      · rw [if_pos here, if_pos here]
      · rw [if_neg here, if_neg here, if_neg here]
    · exact setObject_objects (rt.setShape o.shape (some sh')) p (some o') q
    · rw [shape]
      exact sound.heaped.below _ sh there
  refine ⟨⟨?_, ?_, ?_⟩, replaced.content sound.heaped mine there one⟩
  · exact replaced.heaped sound.heaped mine there one valid (fun yes => by rw [plain'] at yes; cases yes)
      one' size
  · have tabled₁ : Tabled (rt.setShape o.shape (some sh')) (rt.setShape o.shape (some sh')).HashedAt := by
      refine tabled_iff (tabled_write sound.tabled fun among => ?_) fun t => ?_
      · obtain ⟨sh₃, his', hashed⟩ := among
        rw [there, Option.some.injEq] at his'
        rw [← his', plain] at hashed
        cases hashed
      · simp only [ShapeRuntime.HashedAt, shapes]
        by_cases here : t = o.shape
        · simp [here, there, plain, plain']
        · simp [here]
    exact tabled_setObject tabled₁ p _
  · exact replaced.canonical (sound.canonical.but _) fun yes => by rw [plain'] at yes; cases yes

theorem setValue_spec (sound : Sound rt) (known : rt.content p = some c) (slot : c.slots[i]? = some x)
    (value : α) :
    ∃ rt', setValue rt p i value = some rt' ∧ Sound rt' ∧
      ∀ q, rt'.content q = if q = p then some { c with slots := c.slots.set i (x.1, some value) }
        else rt.content q := by
  obtain ⟨o, sh, mine, there, rfl, size, valid⟩ := object_of sound.heaped known
  obtain ⟨his, old⟩ := slot_eq.1 slot
  have inside : i < o.prop.length := (List.getElem?_eq_some_iff.1 old).1
  have inside' : i < sh.prop.length := (List.getElem?_eq_some_iff.1 his).1
  obtain ⟨sound', contents⟩ := @write_object _ rt p sh o { o with prop := o.prop.set i (some value) }
    sound mine there
    rfl (List.length_set ..)
  refine ⟨_, ?_, sound', fun q => ?_⟩
  · simp only [setValue, mine, guard, if_pos inside, Option.bind_eq_bind, Option.bind_some, Option.pure_def]
  · rw [contents]
    by_cases here : q = p
    · rw [if_pos here, if_pos here]
      have same : sh.prop.set i x.1 = sh.prop := by
        rw [List.getElem?_eq_getElem inside', Option.some.injEq] at his
        rw [← his, List.set_getElem_self]
      simp only [contentOf]
      rw [← zip_set, same]
    · rw [if_neg here, if_neg here]

theorem preventExtensions_spec (sound : Sound rt) (known : rt.content p = some c) :
    ∃ rt', jsPreventExtensions rt p = some rt' ∧ Sound rt' ∧
      ∀ q, rt'.content q = if q = p then some { c with extensible := false } else rt.content q := by
  obtain ⟨o, sh, mine, there, rfl, size, valid⟩ := object_of sound.heaped known
  obtain ⟨sound', contents⟩ := @write_object _ rt p sh o { o with extensible := false } sound mine there rfl rfl
  refine ⟨_, ?_, sound', contents⟩
  simp only [jsPreventExtensions, mine, Option.bind_eq_bind, Option.bind_some]

theorem findOwnProperty_spec (sound : Sound rt) (known : rt.content p = some c) (named : atom ≠ 0) :
    ∃ r, findOwnProperty rt p atom = some r ∧
      ∀ i, r = some i ↔ ∃ x, c.slots[i]? = some x ∧ x.1.atom = atom := by
  obtain ⟨o, sh, mine, there, rfl, size, valid⟩ := object_of sound.heaped known
  have room : sh.prop.length ≤ o.prop.length := by
    rw [size]
    exact valid.room
  obtain ⟨r, finds, places⟩ := find_place valid named
  refine ⟨r, ?_, fun i => ?_⟩
  · simp only [findOwnProperty, mine, there, Option.bind_eq_bind, Option.bind_some]
    exact finds
  · rw [places]
    constructor
    · intro same
      obtain ⟨pr, his, equal⟩ := property_at (same ▸ named : atomAt sh.prop i ≠ 0)
      have inside : i < o.prop.length := Nat.lt_of_lt_of_le (List.getElem?_eq_some_iff.1 his).1 room
      exact ⟨(pr, o.prop[i]), slot_eq.2 ⟨his, List.getElem?_eq_getElem inside⟩, equal.trans same⟩
    · rintro ⟨x, slot, same⟩
      rw [atomAt_of (slot_eq.1 slot).1, same]

theorem updatePropertyFlags_spec (sound : Sound rt) (known : rt.content p = some c)
    (slot : c.slots[i]? = some x)
    (flags : Nat) :
    ∃ rt', jsUpdatePropertyFlags rt p i flags = some rt' ∧ Sound rt' ∧
      ∀ q, rt'.content q = if q = p then
        some { c with slots := c.slots.set i ({ x.1 with flags := flags }, x.2) }
        else rt.content q := by
  obtain ⟨o, sh, mine, there, rfl, size, valid⟩ := object_of sound.heaped known
  obtain ⟨his, value⟩ := slot_eq.1 slot
  have inside : i < o.prop.length := (List.getElem?_eq_some_iff.1 value).1
  have sameValue : o.prop.set i x.2 = o.prop := by
    rw [List.getElem?_eq_getElem inside, Option.some.injEq] at value
    rw [← value, List.set_getElem_self]
  by_cases other : flags ≠ x.1.flags
  · obtain ⟨rt₁, s', prepares, sound₁, mine₁, there₁, contents₁⟩ := prepareUpdate_spec sound mine there
    have valid₁ : Shape.Valid { sh with refCount := 1, isHashed := false } :=
      valid.relabel 1 sh.hash false sh.proto
    obtain ⟨sound', contents⟩ := @write_private _ rt₁ p _
      { sh with refCount := 1, isHashed := false, prop := sh.prop.set i { x.1 with flags := flags } } _
      { o with shape := s' } sound₁ mine₁ there₁ rfl rfl (valid₁.reflagged his flags) rfl rfl rfl size
    have unchanged : (rt₁.setShape s' (some { sh with
        refCount := 1, isHashed := false, prop := sh.prop.set i { x.1 with flags := flags } })).setObject p
          (some { o with shape := s' }) = rt₁.setShape s' (some { sh with
        refCount := 1, isHashed := false, prop := sh.prop.set i { x.1 with flags := flags } }) := by
      simp only [ShapeRuntime.setObject, ShapeRuntime.setShape]
      rw [← mine₁, Function.update_eq_self]
    rw [unchanged] at sound' contents
    refine ⟨_, ?_, sound', fun q => ?_⟩
    · simp only [jsUpdatePropertyFlags, mine, there, his, if_pos other, prepares, mine₁, there₁,
        Option.bind_eq_bind, Option.bind_some]
    · rw [contents, contents₁]
      by_cases here : q = p
      · rw [if_pos here, if_pos here]
        simp only [contentOf]
        rw [← zip_set, sameValue]
      · rw [if_neg here, if_neg here]
  · refine ⟨rt, ?_, sound, fun q => ?_⟩
    · simp only [jsUpdatePropertyFlags, mine, there, his, if_neg other, Option.bind_eq_bind, Option.bind_some]
    · by_cases here : q = p
      · subst here
        rw [if_pos rfl, known]
        have same : ({ x.1 with flags := flags }, x.2) = x := by rw [not_not.1 other]
        have inside' : i < (contentOf sh o).slots.length := (List.getElem?_eq_some_iff.1 slot).1
        rw [List.getElem?_eq_getElem inside', Option.some.injEq] at slot
        rw [same, ← slot, List.set_getElem_self]
      · rw [if_neg here]

theorem compactProperties_spec (sound : Sound rt) (mine : rt.objects p = some o)
    (there : rt.shapes o.shape = some sh) (one : sh.refCount = 1) (plain : sh.isHashed = false) :
    ∃ rt', compactProperties rt p = some rt' ∧ Sound rt' ∧
      ∀ q, rt'.content q = if q = p then
        some { contentOf sh o with slots := (contentOf sh o).slots.filter isLive } else rt.content q := by
  have heaped := sound.heaped
  obtain ⟨sh₀, there₀, size⟩ := heaped.fits p o mine
  rw [there, Option.some.injEq] at there₀
  subst there₀
  have valid := heaped.valid _ sh there
  have room : sh.prop.length ≤ o.prop.length := by
    rw [size]
    exact valid.room
  obtain ⟨n, newSize⟩ : ∃ n, n = max propInitialSize (sh.prop.length - sh.deletedPropCount) := ⟨_, rfl⟩
  have positive : 1 ≤ n := by
    rw [newSize]
    exact Nat.le_trans (by decide) (Nat.le_max_left _ _)
  obtain ⟨r, halves, -⟩ := halveHashSize_spec positive (sh.propHashMask + 1) (sh.propHashMask + 1) (by omega)
    (Nat.le_refl _)
  obtain ⟨k, loop, length, within, zipped, valid'⟩ := @compact_spec sh α valid o.prop room n r newSize
  obtain ⟨sh', copy⟩ : ∃ sh' : Shape, sh' = { sh with
    propHashMask := r - 1, propSize := n, deletedPropCount := 0, prop := k.kept, index := k.index } := ⟨_, rfl⟩
  rw [← copy] at valid'
  have below := heaped.below _ sh there
  have one' : sh'.refCount = 1 := by rw [copy, one]
  have plain' : sh'.isHashed = false := by rw [copy, plain]
  obtain ⟨rt', made⟩ : ∃ rt', rt' = ((rt.allocShape sh').2.setShape o.shape none).setObject p
      (some { o with shape := rt.heapTop, prop := reallocProp k.values n }) := ⟨_, rfl⟩
  have shapes : ∀ t, rt'.shapes t = if t = rt.heapTop then some sh' else if t = o.shape then none
      else rt.shapes t := by
    intro t
    rw [made]
    show ((rt.allocShape sh').2.setShape o.shape none).shapes t = _
    by_cases here : t = o.shape
    · rw [here, setShape_self, if_neg (Nat.ne_of_lt below), if_pos rfl]
    · rw [setShape_of_ne _ _ here, allocShape_shapes, if_neg here]
  have replaced : Replaced rt rt' p o.shape sh'
      { o with shape := rt.heapTop, prop := reallocProp k.values n } := by
    refine ⟨shapes, fun q => ?_, ?_, ?_, .inr (fresh_shape heaped)⟩
    · rw [made]
      exact setObject_objects _ p _ q
    · rw [made]
      exact Nat.le_succ _
    · rw [made]
      exact Nat.lt_succ_self _
  refine ⟨rt', ?_, ⟨?_, ?_, ?_⟩, fun q => ?_⟩
  · simp only [compactProperties, mine, there, guard, if_pos plain, ← newSize, if_pos within, halves, loop,
      if_pos length, ← copy, Option.bind_eq_bind, Option.bind_some, Option.pure_def, made]
    rfl
  · exact replaced.heaped heaped mine there one valid' (fun yes => by rw [plain'] at yes; cases yes) one'
      (by rw [length_reallocProp, copy])
  · have hashed : ∀ t, rt'.HashedAt t ↔ rt.HashedAt t := by
      intro t
      simp only [ShapeRuntime.HashedAt, shapes]
      by_cases here : t = rt.heapTop
      · simp [here, fresh_shape heaped, plain']
      · by_cases here' : t = o.shape
        · subst here'
          simp [here, there, plain]
        · simp [here, here']
    rw [made] at hashed ⊢
    refine tabled_same (tabled_alloc heaped sound.tabled sh') rfl rfl rfl rfl (Nat.le_refl _)
      (fun t sh₂ among his => ⟨sh₂, ?_, rfl⟩) hashed
    show ((rt.allocShape sh').2.setShape o.shape none).shapes t = some sh₂
    rw [setShape_of_ne, his]
    rintro rfl
    obtain ⟨sh₃, his', yes⟩ := among
    rw [there, Option.some.injEq] at his'
    rw [← his', plain] at yes
    cases yes
  · exact replaced.canonical (sound.canonical.but _) fun yes => by rw [plain'] at yes; cases yes
  · rw [replaced.content heaped mine there one]
    by_cases here : q = p
    · rw [if_pos here, if_pos here, copy]
      simp only [contentOf, zipped]
    · rw [if_neg here, if_neg here]

end Writing

section Removing
variable {rt rt' : ShapeRuntime α} {s s' t p q : Addr} {sh sh' : Shape} {o o' : JSObject α}
  {values : List (Option α)} {c : Content α} {atom : JSAtom} {i : Nat} {x : ShapeProperty × Option α}

def hole (undefined : α) : ShapeProperty × Option α := (⟨0, 0⟩, some undefined)

theorem removeProperty_spec (sound : Sound rt) (undefined : α) (known : rt.content p = some c)
    (slot : c.slots[i]? = some x) (named : x.1.atom ≠ 0) (written : x.2.isSome = true) :
    ∃ rt' slots, removeProperty undefined rt p x.1.atom i = some rt' ∧ Sound rt' ∧
      (slots = c.slots.set i (hole undefined) ∨ slots = (c.slots.set i (hole undefined)).filter isLive) ∧
      ∀ q, rt'.content q = if q = p then some { c with slots := slots } else rt.content q := by
  obtain ⟨o, sh, mine, there, rfl, size, valid⟩ := object_of sound.heaped known
  obtain ⟨his, value⟩ := slot_eq.1 slot
  obtain ⟨rt₁, s', prepares, sound₁, mine₁, there₁, contents₁⟩ := prepareUpdate_spec sound mine there
  have valid₁ : Shape.Valid { sh with refCount := 1, isHashed := false } :=
      valid.relabel 1 sh.hash false sh.proto
  obtain ⟨index, unlinks, valid₂⟩ := valid₁.removed his named
  obtain ⟨sh₂, copy⟩ : ∃ sh₂ : Shape, sh₂ = { sh with
      refCount := 1
      isHashed := false
      index := index
      deletedPropCount := sh.deletedPropCount + 1
      prop := sh.prop.set i ⟨0, 0⟩ } := ⟨_, rfl⟩
  obtain ⟨o₂, object⟩ : ∃ o₂ : JSObject α, o₂ = { o with
      shape := s'
      prop := o.prop.set i (some undefined) } := ⟨_, rfl⟩
  have valid₂' : sh₂.Valid := by
    rw [copy]
    exact valid₂
  have one₂ : sh₂.refCount = 1 := by rw [copy]
  have plain₂ : sh₂.isHashed = false := by rw [copy]
  have shape₂ : o₂.shape = s' := by rw [object]
  obtain ⟨sound₂, contents₂⟩ := @write_private _ rt₁ p _ sh₂ _ o₂ sound₁ mine₁ there₁ rfl rfl
    valid₂' one₂ plain₂
    (by rw [object]) (by rw [object, copy]; exact (List.length_set ..).trans size)
  have slots₂ : (contentOf sh₂ o₂).slots = (contentOf sh o).slots.set i (hole undefined) := by
    rw [copy, object]
    simp only [contentOf, hole]
    rw [zip_set]
  have content₂ : contentOf sh₂ o₂ =
      { contentOf sh o with slots := (contentOf sh o).slots.set i (hole undefined) } := by
    rw [← slots₂, copy, object]
    rfl
  have removes : removeProperty undefined rt p x.1.atom i =
      compactIfSparse ((rt₁.setShape s' (some sh₂)).setObject p (some o₂)) p sh₂ := by
    have there' : ((o.prop[i]?).join).isSome = true := by
      rw [value]
      exact written
    simp only [removeProperty, prepares, mine₁, there₁, Option.bind_eq_bind, Option.bind_some] at unlinks ⊢
    simp only [unlinks, guard, if_pos there', Option.bind_some, Option.pure_def, copy, object]
  have frame : ∀ q, ((rt₁.setShape s' (some sh₂)).setObject p (some o₂)).content q = if q = p then
      some { contentOf sh o with slots := (contentOf sh o).slots.set i (hole undefined) }
      else rt.content q := by
    intro q
    rw [contents₂, contents₁, content₂]
  by_cases sparse : 8 ≤ sh₂.deletedPropCount ∧ sh₂.prop.length / 2 ≤ sh₂.deletedPropCount
  · have mine₂ : ((rt₁.setShape s' (some sh₂)).setObject p (some o₂)).objects p = some o₂ :=
      (setObject_objects _ p _ p).trans (if_pos rfl)
    have there₂ : ((rt₁.setShape s' (some sh₂)).setObject p (some o₂)).shapes o₂.shape = some sh₂ := by
      rw [shape₂]
      exact setShape_self ..
    obtain ⟨rt', compacts, sound', contents'⟩ := compactProperties_spec sound₂ mine₂ there₂ one₂ plain₂
    refine ⟨rt', _, ?_, sound', .inr rfl, fun q => ?_⟩
    · rw [removes, compactIfSparse, if_pos sparse, compacts]
    · rw [contents', frame, content₂]
      by_cases here : q = p
      · rw [if_pos here, if_pos here]
      · rw [if_neg here, if_neg here, if_neg here]
  · refine ⟨_, _, ?_, sound₂, .inl rfl, frame⟩
    rw [removes, compactIfSparse, if_neg sparse]

theorem deleteProperty_found (sound : Sound rt) (undefined : α) (known : rt.content p = some c)
    (slot : c.slots[i]? = some x) (named : x.1.atom ≠ 0) (written : x.2.isSome = true) :
    ∃ rt' slots, deleteProperty undefined rt p x.1.atom = some (propConfigurable x.1.flags, rt') ∧ Sound rt' ∧
      (if propConfigurable x.1.flags = true then
        slots = c.slots.set i (hole undefined) ∨ slots = (c.slots.set i (hole undefined)).filter isLive
      else slots = c.slots) ∧
      ∀ q, rt'.content q = if q = p then some { c with slots := slots } else rt.content q := by
  obtain ⟨r, finds, places⟩ := findOwnProperty_spec sound known named
  have found := (places i).2 ⟨x, slot, rfl⟩
  subst found
  obtain ⟨o, sh, mine, there, rfl, size, valid⟩ := object_of sound.heaped known
  obtain ⟨his, -⟩ := slot_eq.1 slot
  by_cases configurable : propConfigurable x.1.flags = true
  · obtain ⟨rt', slots, removes, sound', holes, contents⟩ :=
      removeProperty_spec sound undefined known slot named written
    refine ⟨rt', slots, ?_, sound', by rw [if_pos configurable]; exact holes, contents⟩
    simp only [deleteProperty, mine, there, finds, his, removes, configurable, if_true, Option.bind_eq_bind,
      Option.bind_some]
  · refine ⟨rt, (contentOf sh o).slots, ?_, sound, by rw [if_neg configurable], fun q => ?_⟩
    · rw [Bool.not_eq_true] at configurable
      simp only [deleteProperty, mine, there, finds, his, configurable, Bool.false_eq_true, if_false,
        Option.bind_eq_bind, Option.bind_some]
    · by_cases here : q = p
      · rw [if_pos here, here, known]
      · rw [if_neg here]

theorem deleteProperty_absent (sound : Sound rt) (undefined : α) (known : rt.content p = some c)
    (named : atom ≠ 0)
    (absent : ∀ x ∈ c.slots, x.1.atom ≠ atom) : deleteProperty undefined rt p atom = some (true, rt) := by
  obtain ⟨r, finds, places⟩ := findOwnProperty_spec sound known named
  have nowhere : r = none := by
    cases found : r with
    | none => rfl
    | some i =>
      obtain ⟨x, slot, same⟩ := (places i).1 found
      exact absurd same (absent x (List.mem_of_getElem? slot))
  subst nowhere
  obtain ⟨o, sh, mine, there, -, -, -⟩ := object_of sound.heaped known
  simp only [deleteProperty, mine, there, finds, Option.bind_eq_bind, Option.bind_some]

end Removing

section Prototypes
variable {rt rt' : ShapeRuntime α} {s p q : Addr} {sh : Shape} {o : JSObject α} {c : Content α}
  {proto : Option Addr} {is : List Addr}

/-- The prototype of an object, as its content has it. -/
def ShapeRuntime.protoIn (rt : ShapeRuntime α) (q : Addr) : Option Addr := (rt.content q).bind Content.proto

theorem onPrototypeChain_spec (heaped : Heaped rt none) (chain : Chain rt.protoIn proto is)
    (known : ∀ q ∈ is, rt.content q ≠ none) : ∀ fuel, is.length ≤ fuel →
    ∃ b, onPrototypeChain rt p fuel proto = some b ∧ (b = true ↔ p ∈ is) := by
  induction chain with
  | stop =>
    intro fuel _
    refine ⟨false, ?_, by simp⟩
    cases fuel <;> rfl
  | @link q is rest ih =>
    intro fuel enough
    cases fuel with
    | zero => simp at enough
    | succ fuel =>
      rw [List.length_cons] at enough
      by_cases here : q = p
      · exact ⟨true, by rw [onPrototypeChain, if_pos here], by simp [here]⟩
      · obtain ⟨c, content⟩ : ∃ c, rt.content q = some c :=
          Option.ne_none_iff_exists'.1 (known q List.mem_cons_self)
        obtain ⟨o, sh, mine, there, rfl, -, -⟩ := object_of heaped content
        have next : rt.protoIn q = sh.proto := by
          rw [ShapeRuntime.protoIn, content]
          rfl
        obtain ⟨b, finds, iff⟩ := ih (fun r member => known r (List.mem_cons_of_mem _ member)) fuel (by omega)
        refine ⟨b, ?_, ?_⟩
        · rw [next] at finds
          simp only [onPrototypeChain, if_neg here, mine, there, Option.bind_eq_bind, Option.bind_some, finds]
        · rw [iff, List.mem_cons]
          constructor
          · exact .inr
          · rintro (same | later)
            · exact absurd same.symm here
            · exact later

theorem setPrototype_spec (sound : Sound rt) (known : rt.content p = some c)
    (chain : Chain rt.protoIn proto is) (there_ : ∀ q ∈ is, rt.content q ≠ none) (nodup : is.Nodup) :
    ∃ b rt', jsSetPrototype rt p proto = some (b, rt') ∧ Sound rt' ∧
      (b = true ↔ c.proto = proto ∨ (c.extensible = true ∧ p ∉ is)) ∧
      ∀ q, rt'.content q = if q = p ∧ b = true then some { c with proto := proto } else rt.content q := by
  obtain ⟨o, sh, mine, there, rfl, size, valid⟩ := object_of sound.heaped known
  by_cases same : sh.proto = proto
  · refine ⟨true, rt, ?_, sound, ⟨fun _ => .inl same, fun _ => rfl⟩, fun q => ?_⟩
    · simp only [jsSetPrototype, mine, there, if_pos same, Option.bind_eq_bind, Option.bind_some]
    · by_cases here : q = p
      · rw [if_pos ⟨here, rfl⟩, here, known, ← same]
        rfl
      · rw [if_neg fun both => here both.1]
  · by_cases fixed : o.extensible = false
    · refine ⟨false, rt, ?_, sound, ⟨(fun no => by cases no), ?_⟩, fun q => by simp⟩
      · simp only [jsSetPrototype, mine, there, if_neg same, if_pos fixed, Option.bind_eq_bind,
          Option.bind_some]
      · rintro (equal | ⟨extensible, -⟩)
        · exact absurd equal same
        · have no : o.extensible = true := extensible
          rw [fixed] at no
          cases no
    · have short : is.length ≤ rt.heapTop := by
        have within : is ⊆ List.range rt.heapTop := by
          intro q member
          obtain ⟨c, content⟩ := Option.ne_none_iff_exists'.1 (there_ q member)
          obtain ⟨o, -, mine, -⟩ := object_of sound.heaped content
          exact List.mem_range.2 (sound.heaped.inside q o mine)
        have fewer := (nodup.subperm within).length_le
        rwa [List.length_range] at fewer
      obtain ⟨b, finds, iff⟩ := @onPrototypeChain_spec _ rt p proto is sound.heaped chain there_ rt.heapTop
        short
      cases b with
      | true =>
        refine ⟨false, rt, ?_, sound, ⟨(fun no => by cases no), ?_⟩, fun q => by simp⟩
        · simp only [jsSetPrototype, mine, there, if_neg same, if_neg fixed, finds, if_true,
            Option.bind_eq_bind,
            Option.bind_some]
        · rintro (equal | ⟨-, absent⟩)
          · exact absurd equal same
          · exact absurd (iff.1 rfl) absent
      | false =>
        obtain ⟨rt₁, s', prepares, sound₁, mine₁, there₁, contents₁⟩ := prepareUpdate_spec sound mine there
        obtain ⟨sound', contents⟩ := @write_private _ rt₁ p _
          { sh with refCount := 1, isHashed := false, proto := proto } _ { o with shape := s' }
          sound₁ mine₁ there₁
          rfl rfl (valid.relabel 1 sh.hash false proto) rfl rfl rfl size
        have unchanged : (rt₁.setShape s' (some { sh with
            refCount := 1, isHashed := false, proto := proto })).setObject p (some { o with shape := s' }) =
            rt₁.setShape s' (some { sh with refCount := 1, isHashed := false, proto := proto }) := by
          simp only [ShapeRuntime.setObject, ShapeRuntime.setShape]
          rw [← mine₁, Function.update_eq_self]
        rw [unchanged] at sound' contents
        refine ⟨true, _, ?_, sound', ⟨fun _ => .inr ⟨eq_true_of_ne_false fixed, fun member => ?_⟩,
          fun _ => rfl⟩, fun q => ?_⟩
        · simp only [jsSetPrototype, mine, there, if_neg same, if_neg fixed, finds, Bool.false_eq_true,
            if_false,
            prepares,
            mine₁, there₁, Option.bind_eq_bind, Option.bind_some]
        · have no := iff.2 member
          cases no
        · rw [contents, contents₁]
          by_cases here : q = p
          · rw [if_pos here, if_pos ⟨here, rfl⟩]
            rfl
          · rw [if_neg here, if_neg fun both => here both.1]

end Prototypes

section Making
variable {rt rt' : ShapeRuntime α} {s p q : Addr} {sh : Shape} {o : JSObject α} {c : Content α}
  {proto : Option Addr}

theorem resizeForShape_spec (tabled : Tabled rt rt.HashedAt) (few : rt.shapeHashCount + 1 ≤ 2 ^ 29) :
    ∃ rt₁, resizeForShape rt = some rt₁ ∧ Tabled rt₁ rt.HashedAt ∧ rt₁.shapes = rt.shapes ∧
      rt₁.objects = rt.objects ∧ rt₁.heapTop = rt.heapTop := by
  by_cases full : rt.shapeHashSize < 2 * (rt.shapeHashCount + 1)
  · have small : rt.shapeHashBits < 30 := by
      have size := tabled.size
      by_contra large
      have more : 2 ^ 30 ≤ 2 ^ rt.shapeHashBits := Nat.pow_le_pow_right (by omega) (by omega)
      omega
    rw [resizeForShape, if_pos full]
    exact tabled_resize tabled small
  · exact ⟨rt, by rw [resizeForShape, if_neg full], tabled, rfl, rfl, rfl⟩

theorem newShape_spec (sound : Sound rt) (few : rt.shapeHashCount + 1 ≤ 2 ^ 29)
    (missing : ∀ t sh, rt.shapes t = some sh → sh.isHashed = true → ¬ (sh.proto = proto ∧ sh.prop = [])) :
    ∃ rt' s sh, jsNewShape rt proto = some (s, rt') ∧ Heaped rt' (some s) ∧ Tabled rt' rt'.HashedAt ∧
      Canonical rt' ∧ rt'.shapes s = some sh ∧ sh.proto = proto ∧ sh.prop = [] ∧
      ∀ q, rt'.content q = rt.content q := by
  have heaped := sound.heaped
  obtain ⟨rt₁, resizes, tabled₁, shapes₁, objects₁, top₁⟩ := resizeForShape_spec sound.tabled few
  have heaped₁ := heaped_congr heaped shapes₁ objects₁ top₁
  obtain ⟨x, new⟩ : ∃ x : Shape, x = ⟨1, true, false, shapeInitialHash proto, propInitialHashSize - 1,
    propInitialSize, 0, [], ⟨fun _ => none, fun _ => none⟩, proto⟩ := ⟨_, rfl⟩
  have hashed : x.isHashed = true := by rw [new]
  have sealed : x.Sealed := by
    intro _
    rw [new]
    refine ⟨rfl, ?_⟩
    rw [contentHash, List.foldl_nil]
  have valid : x.Valid := by
    rw [new]
    exact valid_new _ _ _ _
  have filed : rt₁.HashedAt = rt.HashedAt := by
    funext t
    rw [ShapeRuntime.HashedAt, shapes₁, ShapeRuntime.HashedAt]
  obtain ⟨rt', links, heaped', tabled', -, shapes', contents'⟩ :=
    linked_alloc heaped₁ (by rwa [filed]) valid sealed (by rw [new]) hashed
  refine ⟨rt', rt₁.heapTop, x, ?_, heaped', tabled', ?_, (shapes' _).trans
    (if_pos rfl), by rw [new], by rw [new],
    fun q => ?_⟩
  · simp only [jsNewShape, jsNewShape2, resizes, Option.bind_eq_bind, Option.bind_some]
    rw [← new]
    show (jsShapeHashLink (rt₁.allocShape x).2 rt₁.heapTop).bind (fun rt => some (rt₁.heapTop, rt)) = _
    rw [links]
    rfl
  · refine canonical_of_added rt₁.heapTop x (sound.canonical.but rt₁.heapTop) (fun t sh₂ his => ?_)
      fun _ t sh₂ _ his hashed₂ same => ?_
    · rw [shapes', shapes₁] at his
      by_cases here : t = rt₁.heapTop
      · rw [if_pos here, Option.some.injEq] at his
        exact .inl ⟨here, his.symm⟩
      · rw [if_neg here] at his
        exact .inr ⟨here, his⟩
    · rw [new] at same
      exact missing t sh₂ his hashed₂ same
  · rw [contents', ShapeRuntime.content, ShapeRuntime.content, objects₁, shapes₁]

theorem shapeForProto_spec (sound : Sound rt) (few : rt.shapeHashCount + 1 ≤ 2 ^ 29) (proto : Option Addr) :
    ∃ rt' s sh, shapeForProto rt proto = some (s, rt') ∧ Heaped rt' (some s) ∧ Tabled rt' rt'.HashedAt ∧
      Canonical rt' ∧ rt'.shapes s = some sh ∧ sh.proto = proto ∧ sh.prop = [] ∧
      ∀ q, rt'.content q = rt.content q := by
  have heaped := sound.heaped
  obtain ⟨r, finds, hit, miss⟩ := findHashedShapeProto_spec heaped sound.tabled proto
  cases r with
  | some s =>
    obtain ⟨sh, there, hashed, same, empty⟩ := hit s rfl
    obtain ⟨rt', dups, heaped', tabled', recounted, there'⟩ := dup_spec heaped sound.tabled there hashed
    refine ⟨rt', s, _, ?_, heaped', tabled', recounted.canonical sound.canonical, there', same, empty,
      recounted.content heaped⟩
    simp only [shapeForProto, finds, dups, Option.bind_eq_bind, Option.bind_some]
  | none =>
    obtain ⟨rt', s, sh, makes, made⟩ := newShape_spec sound few (miss rfl)
    refine ⟨rt', s, sh, ?_, made⟩
    simp only [shapeForProto, finds, makes, Option.bind_eq_bind, Option.bind_some]

theorem newObjectProtoClass_spec (sound : Sound rt) (few : rt.shapeHashCount + 1 ≤ 2 ^ 29)
    (proto : Option Addr) :
    ∃ p rt', jsNewObjectProtoClass rt proto = some (p, rt') ∧ Sound rt' ∧ rt.content p = none ∧
      ∀ q, rt'.content q = if q = p then some ⟨proto, true, []⟩ else rt.content q := by
  obtain ⟨rt₁, s, sh, gets, heaped₁, tabled₁, canonical₁, there₁, same, empty, contents₁⟩ :=
    shapeForProto_spec sound few proto
  obtain ⟨o, new⟩ : ∃ o : JSObject α, o = ⟨s, true, List.replicate sh.propSize none⟩ := ⟨_, rfl⟩
  have objects := allocObject_objects rt₁ o
  have shape : o.shape = s := by rw [new]
  have heaped' : Heaped (rt₁.allocObject o).2 none := by
    have held : Heaped rt₁ (some o.shape) := by rwa [shape]
    have there : rt₁.shapes o.shape = some sh := by rwa [shape]
    exact heaped_newObject held there (by rw [new, List.length_replicate])
  refine ⟨rt₁.heapTop, (rt₁.allocObject o).2, ?_, ⟨heaped', ?_, canonical₁⟩, ?_, fun q => ?_⟩
  · simp only [jsNewObjectProtoClass, gets, jsNewObjectFromShape, there₁, Option.bind_eq_bind, Option.bind_some,
      new]
    rfl
  · exact tabled_same tabled₁ rfl rfl rfl rfl (Nat.le_succ _) (fun t sh₂ _ his => ⟨sh₂, his, rfl⟩)
      fun _ => Iff.rfl
  · rw [← contents₁, ShapeRuntime.content, fresh_object heaped₁]
    rfl
  · by_cases here : q = rt₁.heapTop
    · rw [if_pos here, here]
      have mine : (rt₁.allocObject o).2.objects rt₁.heapTop = some o := (objects _).trans (if_pos rfl)
      have there : (rt₁.allocObject o).2.shapes o.shape = some sh := by
        rw [shape]
        exact there₁
      rw [content_eq mine there, contentOf, same, empty, new, List.zip_nil_left]
    · rw [if_neg here, ← contents₁]
      exact content_congr ((objects q).trans (if_neg here)) (fun x _ sh₂ old => ⟨sh₂, old, rfl, rfl⟩) heaped₁

theorem freeObject_spec (sound : Sound rt) (known : rt.content p = some c)
    (written : ∀ x ∈ c.slots, x.2.isSome = true) :
    ∃ rt', freeObject rt p = some rt' ∧ Sound rt' ∧
      ∀ q, rt'.content q = if q = p then none else rt.content q := by
  have heaped := sound.heaped
  obtain ⟨o, sh, mine, there, rfl, size, valid⟩ := object_of heaped known
  have room : sh.prop.length ≤ o.prop.length := by
    rw [size]
    exact valid.room
  have removed := heaped_remove heaped mine
  obtain ⟨rt', frees, heaped', tabled', recounted, -⟩ :=
    free_spec removed (tabled_setObject sound.tabled p none) there
  have contents : ∀ q, (rt.setObject p none).content q = if q = p then none else rt.content q := by
    intro q
    by_cases here : q = p
    · subst here
      have gone : (rt.setObject q none).objects q = none := (setObject_objects rt q none q).trans (if_pos rfl)
      simp [ShapeRuntime.content, gone]
    · rw [if_neg here]
      exact content_congr ((setObject_objects rt p none q).trans (if_neg here))
        (fun x _ sh₂ old => ⟨sh₂, old, rfl, rfl⟩) heaped
  refine ⟨rt', ?_, ⟨heaped', tabled', recounted.canonical sound.canonical⟩, fun q => ?_⟩
  · have all : ((List.range sh.prop.length).all fun i => (o.prop[i]?).join.isSome) = true := by
      rw [List.all_eq_true]
      intro i member
      have inside := List.mem_range.1 member
      have slot : (contentOf sh o).slots[i]? = some (sh.prop[i], o.prop[i]) :=
        slot_eq.2 ⟨List.getElem?_eq_getElem inside, List.getElem?_eq_getElem (Nat.lt_of_lt_of_le inside room)⟩
      have some_ := written _ (List.mem_of_getElem? slot)
      rw [List.getElem?_eq_getElem (Nat.lt_of_lt_of_le inside room)]
      exact some_
    simp only [freeObject, mine, there, guard, if_pos all, Option.bind_eq_bind, Option.bind_some,
      Option.pure_def]
    exact frees
  · rw [recounted.content removed, contents]

end Making

end QuickJSBridge.Shapes
