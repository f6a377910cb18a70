import Mathlib
import QuickJSBridge.ShapeHeap

/- What each operation on an object does to the properties of all objects: the object it is for
   has what was asked for, and an object that shares its shape stays as it is. -/
namespace QuickJSBridge.Shapes
open HashChains
open Atoms (JSAtom atomIsTaggedInt)

variable {α : Type}

section Finding
variable {rt : ShapeRuntime α} {held : Option Addr} {proto : Option Addr} {sh : Shape} {atom : JSAtom}
  {flags : Nat}

theorem find_hashed (heaped : Heaped rt held) (tabled : Tabled rt rt.HashedAt) (test : Shape → Bool) (h : Nat)
    (hash : ∀ sh, sh.Sealed → sh.isHashed = true → test sh = true → sh.hash = h) :
    ∃ r, walk rt.table.next (fun s => (rt.shapes s).any test) rt.heapTop
        (rt.table.head (getShapeHash h rt.shapeHashBits)) = some r ∧
      (∀ s, r = some s → ∃ sh, rt.shapes s = some sh ∧ sh.isHashed = true ∧ test sh = true) ∧
      (r = none → ∀ s sh, rt.shapes s = some sh → sh.isHashed = true → test sh = false) := by
  obtain ⟨r, finds, hit, miss⟩ := walk_filed tabled.chained (fun s => (rt.shapes s).any test)
    (fun s there => tabled_listed tabled there) (by rw [List.length_range])
    (getShapeHash h rt.shapeHashBits)
  refine ⟨r, finds, fun s found => ?_, fun none s sh there hashed => ?_⟩
  · obtain ⟨⟨sh, there, hashed⟩, -, passed⟩ := hit s (by rw [found]; rfl)
    rw [there, Option.any_some] at passed
    exact ⟨sh, there, hashed, passed⟩
  · by_contra passed
    rw [Bool.not_eq_false] at passed
    have missed := miss none s ⟨sh, there, hashed⟩ (by
      rw [bucketOf_eq there, hash sh (heaped.sealed s sh there) hashed passed])
    rw [there, Option.any_some, passed] at missed
    cases missed

theorem findHashedShapeProto_spec (heaped : Heaped rt held) (tabled : Tabled rt rt.HashedAt)
    (proto : Option Addr) :
    ∃ r, findHashedShapeProto rt proto = some r ∧
      (∀ s, r = some s → ∃ sh, rt.shapes s = some sh ∧ sh.isHashed = true ∧ sh.proto = proto ∧ sh.prop = []) ∧
      (r = none → ∀ s sh, rt.shapes s = some sh → sh.isHashed = true →
        ¬ (sh.proto = proto ∧ sh.prop = [])) := by
  obtain ⟨r, finds, hit, miss⟩ := find_hashed heaped tabled
    (fun sh1 => sh1.hash = shapeInitialHash proto && sh1.proto = proto && sh1.prop.length = 0)
    (shapeInitialHash proto) (fun sh _ _ passed => by
      simp only [Bool.and_eq_true, decide_eq_true_eq] at passed
      exact passed.1.1)
  refine ⟨r, finds, fun s found => ?_, fun none s sh there hashed same => ?_⟩
  · obtain ⟨sh, there, hashed, passed⟩ := hit s found
    simp only [Bool.and_eq_true, decide_eq_true_eq, List.length_eq_zero_iff] at passed
    exact ⟨sh, there, hashed, passed.1.2, passed.2⟩
  · have failed := miss none s sh there hashed
    have hash := (heaped.sealed s sh there hashed).2
    rw [same.1, same.2, contentHash, List.foldl_nil] at hash
    simp [hash, same.1, same.2] at failed

theorem extends_iff {prop prop' : List ShapeProperty} {pr : ShapeProperty} :
    (prop'.length = prop.length + 1 ∧ (∀ i < prop.length, prop'[i]? = prop[i]?) ∧
      prop'[prop.length]? = some pr) ↔ prop' = prop ++ [pr] := by
  constructor
  · rintro ⟨length, same, last⟩
    refine List.ext_getElem? fun i => ?_
    rcases Nat.lt_trichotomy i prop.length with before | here | after
    · rw [same i before, List.getElem?_append_left before]
    · rw [here, last, List.getElem?_append_right (Nat.le_refl _), Nat.sub_self, List.getElem?_cons_zero]
    · rw [List.getElem?_eq_none (by omega), List.getElem?_eq_none]
      rw [List.length_append, List.length_singleton]
      omega
  · rintro rfl
    refine ⟨by simp, fun i before => List.getElem?_append_left before, by simp⟩

theorem findHashedShapeProp_spec (heaped : Heaped rt held) (tabled : Tabled rt rt.HashedAt)
    (sealed : sh.Sealed) (hashed : sh.isHashed = true) (atom : JSAtom) (flags : Nat) :
    ∃ r, findHashedShapeProp rt sh atom flags = some r ∧
      (∀ s, r = some s → ∃ sh1, rt.shapes s = some sh1 ∧ sh1.isHashed = true ∧ sh1.proto = sh.proto ∧
        sh1.prop = sh.prop ++ [⟨atom, flags⟩]) ∧
      (r = none → ∀ s sh1, rt.shapes s = some sh1 → sh1.isHashed = true →
        ¬ (sh1.proto = sh.proto ∧ sh1.prop = sh.prop ++ [⟨atom, flags⟩])) := by
  obtain ⟨h, hash⟩ : ∃ h, h = shapeHash (shapeHash sh.hash atom) flags := ⟨_, rfl⟩
  obtain ⟨r, finds, hit, miss⟩ := find_hashed heaped tabled
    (fun sh1 => sh1.hash = h && sh1.proto = sh.proto && sh1.prop.length = sh.prop.length + 1 &&
      (List.range sh.prop.length).all (fun i => sh1.prop[i]? = sh.prop[i]?) &&
      sh1.prop[sh.prop.length]? = some ⟨atom, flags⟩) h (fun sh1 _ _ passed => by
      simp only [Bool.and_eq_true, decide_eq_true_eq] at passed
      exact passed.1.1.1.1)
  refine ⟨r, ?_, fun s found => ?_, fun none s sh1 there hashed' same => ?_⟩
  · rw [findHashedShapeProp, ← hash]
    exact finds
  · obtain ⟨sh1, there, hashed', passed⟩ := hit s found
    simp only [Bool.and_eq_true, decide_eq_true_eq, List.all_eq_true, List.mem_range] at passed
    exact ⟨sh1, there, hashed', passed.1.1.1.2, extends_iff.1 ⟨passed.1.1.2, passed.1.2, passed.2⟩⟩
  · have failed := miss none s sh1 there hashed'
    have hash' := (heaped.sealed s sh1 there hashed').2
    rw [same.1, same.2, contentHash_append, ← (sealed hashed).2, ← hash] at hash'
    obtain ⟨length, inside, last⟩ := extends_iff.2 same.2
    have passed : (List.range sh.prop.length).all (fun i => decide (sh1.prop[i]? = sh.prop[i]?)) = true := by
      simpa [List.all_eq_true] using inside
    rw [passed, last] at failed
    simp [hash', same.1, length] at failed

end Finding

section Exchanging
variable {rt rt' : ShapeRuntime α} {s t p q : Addr} {sh sh' : Shape} {o o' : JSObject α}
  {values : List (Option α)} {c : Content α}

theorem setObject_objects (rt : ShapeRuntime α) (p : Addr) (x : Option (JSObject α)) (q : Addr) :
    (rt.setObject p x).objects q = if q = p then x else rt.objects q := by
  by_cases here : q = p
  · subst here
    simp [ShapeRuntime.setObject]
  · simp [ShapeRuntime.setObject, here]

theorem tabled_setObject {filed : Addr → Prop} (tabled : Tabled rt filed) (p : Addr) (x : Option (JSObject α)) :
    Tabled (rt.setObject p x) filed :=
  tabled_same tabled rfl rfl rfl rfl (Nat.le_refl _) (fun _ sh _ mine => ⟨sh, mine, rfl⟩) fun _ => Iff.rfl

theorem object_of (heaped : Heaped rt none) (known : rt.content p = some c) :
    ∃ o sh, rt.objects p = some o ∧ rt.shapes o.shape = some sh ∧ c = contentOf sh o ∧
      o.prop.length = sh.propSize ∧ sh.Valid := by
  cases mine : rt.objects p with
  | none => simp [ShapeRuntime.content, mine] at known
  | some o =>
    obtain ⟨sh, there, size⟩ := heaped.fits p o mine
    rw [content_eq mine there, Option.some.injEq] at known
    exact ⟨o, sh, rfl, there, known.symm, size, heaped.valid _ sh there⟩

theorem exchange_spec (heaped : Heaped rt (some s)) (tabled : Tabled rt rt.HashedAt)
    (mine : rt.objects p = some o) (there : rt.shapes s = some sh') (other : o.shape ≠ s)
    (size : values.length = sh'.propSize) :
    ∃ rt', exchangeShape rt p o s values = some rt' ∧ Heaped rt' none ∧ Tabled rt' rt'.HashedAt ∧
      rt'.objects p = some { o with shape := s, prop := values } ∧ rt'.shapes s = some sh' ∧
      (∀ t sh₂, rt'.shapes t = some sh₂ → ∃ sh₁ n, rt.shapes t = some sh₁ ∧ sh₂ = { sh₁ with refCount := n }) ∧
      ∀ q, rt'.content q = if q = p then some (contentOf sh' { o with shape := s, prop := values })
        else rt.content q := by
  have given := heaped_give heaped mine there other size
  have objects := setObject_objects rt p (some { o with shape := s, prop := values })
  obtain ⟨sh, there₀, -⟩ := heaped.fits p o mine
  obtain ⟨rt', frees, heaped', tabled', recounted, others⟩ :=
    free_spec given (tabled_setObject tabled p (some { o with shape := s, prop := values })) there₀
  have contents : ∀ q, (rt.setObject p (some { o with shape := s, prop := values })).content q =
      if q = p then some (contentOf sh' { o with shape := s, prop := values }) else rt.content q := by
    intro q
    by_cases here : q = p
    · subst here
      rw [if_pos rfl]
      exact content_eq ((objects q).trans (if_pos rfl)) there
    · rw [if_neg here]
      exact content_congr ((objects q).trans (if_neg here)) (fun x his sh₂ old => ⟨sh₂, old, rfl, rfl⟩) heaped
  refine ⟨rt', frees, heaped', tabled', ?_, ?_, fun t sh₂ his => ?_, fun q => ?_⟩
  · rw [recounted.objects]
    exact (objects p).trans (if_pos rfl)
  · rw [others s (Ne.symm other)]
    exact there
  · exact recounted.shapes t sh₂ his
  · rw [recounted.content given, contents]

end Exchanging

section Preparing
variable {rt rt' : ShapeRuntime α} {s t p q : Addr} {sh sh' : Shape} {o o' : JSObject α}
  {values : List (Option α)} {c : Content α}

theorem hashedAt_alloc (heaped : Heaped rt none) (plain : sh.isHashed = false) (t : Addr) :
    (rt.allocShape sh).2.HashedAt t ↔ rt.HashedAt t := by
  simp only [ShapeRuntime.HashedAt, allocShape_shapes]
  by_cases here : t = rt.heapTop
  · subst here
    simp [fresh_shape heaped, plain]
  · simp [here]

theorem canonical_of_shapes {x : Addr} (canonical : CanonicalBut rt x)
    (shapes : ∀ t sh₂, t ≠ x → rt'.shapes t = some sh₂ → sh₂.isHashed = true →
      ∃ sh₁ n, rt.shapes t = some sh₁ ∧ sh₂ = { sh₁ with refCount := n }) : CanonicalBut rt' x := by
  intro t u sh₁ sh₂ other other' mine mine' hashed hashed' proto prop
  obtain ⟨sh₃, n, old, rfl⟩ := shapes t sh₁ other mine hashed
  obtain ⟨sh₄, n', old', rfl⟩ := shapes u sh₂ other' mine' hashed'
  exact canonical t u sh₃ sh₄ other other' old old' hashed hashed' proto prop

theorem canonical_of_but {x : Addr} (canonical : CanonicalBut rt x) (plain : ¬ rt.HashedAt x) :
    Canonical rt := by
  intro t u sh₁ sh₂ mine mine' hashed hashed' proto prop
  refine canonical t u sh₁ sh₂ ?_ ?_ mine mine' hashed hashed' proto prop
  · rintro rfl
    exact plain ⟨sh₁, mine, hashed⟩
  · rintro rfl
    exact plain ⟨sh₂, mine', hashed'⟩

theorem clone_spec (heaped : Heaped rt none) (tabled : Tabled rt rt.HashedAt)
    (there : rt.shapes o.shape = some sh) :
    ∃ rt₁, jsCloneShape rt o.shape = some (rt.heapTop, rt₁) ∧ Heaped rt₁ (some rt.heapTop) ∧
      Tabled rt₁ rt₁.HashedAt ∧ rt₁.objects = rt.objects ∧ o.shape ≠ rt.heapTop ∧
      (∀ t, rt₁.shapes t = if t = rt.heapTop then some { sh with refCount := 1, isHashed := false }
        else rt.shapes t) ∧ (∀ q, rt₁.content q = rt.content q) ∧ rt.heapTop < rt₁.heapTop := by
  obtain ⟨x, copy⟩ : ∃ x : Shape, x = { sh with refCount := 1, isHashed := false } := ⟨_, rfl⟩
  have plain : x.isHashed = false := by rw [copy]
  refine ⟨(rt.allocShape x).2, ?_, ?_, ?_, rfl, Nat.ne_of_lt (heaped.below _ sh there), ?_,
    content_alloc heaped x, Nat.lt_succ_self _⟩
  · rw [jsCloneShape, there, copy]
    rfl
  · refine heaped_alloc heaped ?_ (fun hashed => ?_) (by rw [copy])
    · rw [copy]
      exact (heaped.valid _ sh there).relabel _ _ _ _
    · rw [plain] at hashed
      cases hashed
  · exact tabled_same (tabled_alloc heaped tabled x) rfl rfl rfl rfl (Nat.le_refl _)
      (fun t sh' _ mine => ⟨sh', mine, rfl⟩) (hashedAt_alloc heaped plain)
  · intro t
    rw [allocShape_shapes, copy]

def Prepares (rt : ShapeRuntime α) (p : Addr) (o : JSObject α) (sh : Shape) : Prop :=
  ∃ rt' s', jsShapePrepareUpdate rt p = some rt' ∧ Sound rt' ∧ rt'.objects p = some { o with shape := s' } ∧
    rt'.shapes s' = some { sh with refCount := 1, isHashed := false } ∧
    ∀ q, rt'.content q = rt.content q

theorem prepare_shared (sound : Sound rt) (mine : rt.objects p = some o) (there : rt.shapes o.shape = some sh)
    (size : o.prop.length = sh.propSize) (hashed : sh.isHashed = true) (shared : sh.refCount ≠ 1) :
    Prepares rt p o sh := by
  have heaped := sound.heaped
  obtain ⟨rt₁, clones, heaped₁, tabled₁, objects₁, apart, shapes₁, contents₁, -⟩ :=
    clone_spec heaped sound.tabled there
  obtain ⟨rt', exchanges, heaped', tabled', mine', there', shapes', contents'⟩ :=
    @exchange_spec _ rt₁ rt.heapTop p { sh with refCount := 1, isHashed := false } o o.prop heaped₁ tabled₁
      (by rw [objects₁, mine]) (by rw [shapes₁, if_pos rfl]) apart size
  have canonical' : Canonical rt' := by
    refine canonical_of_but (x := rt.heapTop) (canonical_of_shapes (sound.canonical.but rt.heapTop)
      fun t sh₂ other his _ => ?_) ?_
    · obtain ⟨sh₁, n, old, same⟩ := shapes' t sh₂ his
      rw [shapes₁, if_neg other] at old
      exact ⟨sh₁, n, old, same⟩
    · rintro ⟨sh₂, his, hashed₂⟩
      rw [there', Option.some.injEq] at his
      rw [← his] at hashed₂
      cases hashed₂
  refine ⟨rt', rt.heapTop, ?_, ⟨heaped', tabled', canonical'⟩, mine', there', fun q => ?_⟩
  · simp only [jsShapePrepareUpdate, mine, there, if_pos hashed, if_pos shared, clones, Option.bind_eq_bind,
      Option.bind_some, exchanges]
  · rw [contents', contents₁]
    by_cases here : q = p
    · subst here
      rw [if_pos rfl, content_eq mine there]
      rfl
    · rw [if_neg here]

theorem prepare_alone (sound : Sound rt) (mine : rt.objects p = some o) (there : rt.shapes o.shape = some sh)
    (size : o.prop.length = sh.propSize) (hashed : sh.isHashed = true) (one : sh.refCount = 1) :
    Prepares rt p o sh := by
  have heaped := sound.heaped
  obtain ⟨table, n, unlinks, tabled₁⟩ := tabled_unlink sound.tabled ⟨sh, there, hashed⟩
  have same : { sh with isHashed := false } = { sh with refCount := 1, isHashed := false } := by
    rw [← one]
  obtain ⟨rt', made⟩ : ∃ rt', rt' = (rt.withTable table n).setShape o.shape
      (some { sh with refCount := 1, isHashed := false }) := ⟨_, rfl⟩
  have shapes : ∀ t, rt'.shapes t = if t = o.shape then some { sh with refCount := 1, isHashed := false }
      else rt.shapes t := by
    intro t
    rw [made]
    by_cases here : t = o.shape
    · rw [if_pos here, here, setShape_self]
    · rw [if_neg here, setShape_of_ne _ _ here]
      rfl
  have objects : ∀ q, rt'.objects q = if q = p then some o else rt.objects q := by
    intro q
    rw [made]
    by_cases here : q = p
    · rw [if_pos here, here]
      exact mine
    · rw [if_neg here]
      rfl
  have top : rt'.heapTop = rt.heapTop := by
    rw [made]
    rfl
  have replaced : Replaced rt rt' p o.shape { sh with refCount := 1, isHashed := false } o := by
    refine ⟨fun t => ?_, objects, Nat.le_of_eq top.symm, ?_, .inl rfl⟩
    · rw [shapes]
      by_cases here : t = o.shape
      · rw [if_pos here, if_pos here]
      · rw [if_neg here, if_neg here, if_neg here]
    · rw [top]
      exact heaped.below _ sh there
  refine ⟨rt', o.shape, ?_, ⟨?_, ?_, ?_⟩, ?_, ?_, fun q => ?_⟩
  · simp only [jsShapePrepareUpdate, mine, there, if_pos hashed, if_neg (not_not.2 one), unlinks,
      Option.bind_eq_bind, Option.bind_some, made, same]
  · exact replaced.heaped heaped mine there one ((heaped.valid _ sh there).relabel _ _ _ _)
      (fun hashed => by cases hashed) rfl size
  · rw [made]
    refine tabled_iff (tabled_write tabled₁ fun gone => absurd rfl gone.1) fun t => ?_
    rw [← made]
    simp only [ShapeRuntime.HashedAt, shapes]
    by_cases here : t = o.shape
    · simp [here]
    · simp [here]
  · exact replaced.canonical (sound.canonical.but _) fun hashed => by cases hashed
  · rw [objects, if_pos rfl]
  · rw [shapes, if_pos rfl]
  · rw [replaced.content heaped mine there one]
    by_cases here : q = p
    · subst here
      rw [if_pos rfl, content_eq mine there]
      rfl
    · rw [if_neg here]

theorem prepareUpdate_spec (sound : Sound rt) (mine : rt.objects p = some o)
    (there : rt.shapes o.shape = some sh) : Prepares rt p o sh := by
  have heaped := sound.heaped
  obtain ⟨sh₀, there₀, size⟩ := heaped.fits p o mine
  rw [there, Option.some.injEq] at there₀
  subst there₀
  by_cases hashed : sh.isHashed = true
  · by_cases shared : sh.refCount ≠ 1
    · exact prepare_shared sound mine there size hashed shared
    · exact prepare_alone sound mine there size hashed (not_not.1 shared)
  · rw [Bool.not_eq_true] at hashed
    have one := heaped.alone _ sh there hashed
    have same : sh = { sh with refCount := 1, isHashed := false } := by
      rw [← one, ← hashed]
    refine ⟨rt, o.shape, ?_, sound, mine, ?_, fun _ => rfl⟩
    · simp only [jsShapePrepareUpdate, mine, there, hashed, Bool.false_eq_true, if_false, Option.bind_eq_bind,
        Option.bind_some]
    · rw [← same]
      exact there

end Preparing

section Adding
variable {rt rt' : ShapeRuntime α} {s s' t p q : Addr} {sh sh' : Shape} {o o' : JSObject α}
  {values : List (Option α)} {c : Content α} {atom : JSAtom} {flags : Nat}

/-- A shape and its object have room for another property, perhaps in a new place. -/
structure Roomy (rt rt' : ShapeRuntime α) (p s s' : Addr) (sh' : Shape) (o : JSObject α)
    (values : List (Option α)) : Prop where
  place : s' = s ∨ s' = rt.heapTop
  shapes : ∀ t, rt'.shapes t = if t = s' then some sh' else if t = s then none else rt.shapes t
  objects : ∀ q, rt'.objects q = if q = p then some { o with prop := values } else rt.objects q
  table : rt'.table = rt.table
  bits : rt'.shapeHashBits = rt.shapeHashBits
  size : rt'.shapeHashSize = rt.shapeHashSize
  count : rt'.shapeHashCount = rt.shapeHashCount
  top : rt.heapTop ≤ rt'.heapTop
  inside : s' < rt'.heapTop

theorem resizeForProperty_spec (valid : sh.Valid) (there : rt.shapes s = some sh) (below : s < rt.heapTop)
    (mine : rt.objects p = some o) (size : o.prop.length = sh.propSize) (few : sh.prop.length < 2 ^ 26) :
    ∃ s' rt' n m index values, resizeForProperty rt s (some p) sh = some (s', rt') ∧
      Roomy rt rt' p s s' { sh with propSize := n, propHashMask := m, index := index } o values ∧
      Shape.Valid { sh with propSize := n, propHashMask := m, index := index } ∧
      sh.prop.length < n ∧ values.length = n ∧ sh.prop.zip values = sh.prop.zip o.prop := by
  have room := valid.room
  by_cases full : sh.propSize ≤ sh.prop.length
  · obtain ⟨n, newSize⟩ : ∃ n, n = max (sh.prop.length + 1) (sh.propSize * 3 / 2) := ⟨_, rfl⟩
    obtain ⟨r, doubles, positive⟩ := @doubleHashSize_spec n n (sh.propHashMask + 1) (by omega) (by omega)
    obtain ⟨x, resized⟩ : ∃ x, x = sh.resized n r := ⟨_, rfl⟩
    obtain ⟨rt₁, made⟩ : ∃ rt₁, rt₁ = rt.setObject p (some { o with prop := reallocProp o.prop n }) := ⟨_, rfl⟩
    have shapes₁ : rt₁.shapes = rt.shapes ∧ rt₁.heapTop = rt.heapTop := by
      rw [made]
      exact ⟨rfl, rfl⟩
    refine ⟨rt.heapTop, (rt₁.allocShape x).2.setShape s none, x.propSize, x.propHashMask, x.index,
      reallocProp o.prop n, ?_, ⟨.inr rfl, fun t => ?_, fun q => ?_, ?_, ?_, ?_, ?_, ?_, ?_⟩, ?_, ?_, ?_, ?_⟩
    · rw [resizeForProperty, if_pos full]
      simp only [resizeProperties, there, guard, if_pos (show sh.propSize * 3 < 2 ^ 31 by omega), ← newSize,
        resizeValues, mine, doubles, ← resized, ← made, Option.bind_eq_bind, Option.bind_some, Option.pure_def]
      rw [← shapes₁.2]
      rfl
    · by_cases here : t = s
      · subst here
        rw [setShape_self, if_neg (Nat.ne_of_lt below), if_pos rfl]
      · rw [setShape_of_ne _ _ here, allocShape_shapes, shapes₁.1, shapes₁.2, if_neg here, resized]
        rfl
    · rw [made]
      exact setObject_objects rt p _ q
    · rw [made]
      rfl
    · rw [made]
      rfl
    · rw [made]
      rfl
    · rw [made]
      rfl
    · show rt.heapTop ≤ rt₁.heapTop + 1
      rw [shapes₁.2]
      exact Nat.le_succ _
    · show rt.heapTop < rt₁.heapTop + 1
      rw [shapes₁.2]
      exact Nat.lt_succ_self _
    · have valid' : (sh.resized n r).Valid := valid.resized (by omega) (by omega)
      rw [← resized] at valid'
      have same : x = { sh with propSize := x.propSize, propHashMask := x.propHashMask, index := x.index } := by
        rw [resized]
        rfl
      rw [← same]
      exact valid'
    · rw [resized]
      show sh.prop.length < n
      omega
    · rw [length_reallocProp, resized]
      rfl
    · rw [zip_reallocProp (by omega) (by omega)]
  · refine ⟨s, rt, sh.propSize, sh.propHashMask, sh.index, o.prop, ?_, ⟨.inl rfl, fun t => ?_, fun q => ?_,
      rfl, rfl, rfl, rfl, Nat.le_refl _, below⟩, valid, by omega, size, rfl⟩
    · rw [resizeForProperty, if_neg full]
    · by_cases here : t = s
      · rw [if_pos here, here, there]
      · rw [if_neg here, if_neg here]
    · by_cases here : q = p
      · rw [if_pos here, here, mine]
      · rw [if_neg here]

theorem relinkIfHashed_spec {filed : Addr → Prop} (tabled : Tabled rt filed) (fresh : ¬ filed s)
    (there : rt.shapes s = some sh) (below : s < rt.heapTop) {h : Nat} (within : h < 2 ^ 32) :
    ∃ rt' n, relinkIfHashed rt s h = some rt' ∧ (sh.isHashed = true → n = h) ∧
      Tabled rt' (fun t => (t = s ∧ sh.isHashed = true) ∨ filed t) ∧
      (∀ t, rt'.shapes t = if t = s then some { sh with hash := n } else rt.shapes t) ∧
      rt'.objects = rt.objects ∧ rt'.heapTop = rt.heapTop := by
  by_cases hashed : sh.isHashed = true
  · have shapes : ∀ t, (rt.setShape s (some { sh with hash := h })).shapes t =
        if t = s then some { sh with hash := h } else rt.shapes t := by
      intro t
      by_cases here : t = s
      · rw [if_pos here, here, setShape_self]
      · rw [if_neg here, setShape_of_ne _ _ here]
    have tabled₁ : Tabled (rt.setShape s (some { sh with hash := h })) filed :=
      tabled_write tabled fun among => absurd among fresh
    obtain ⟨table, n, links, tabled₂⟩ := tabled_link tabled₁ fresh (setShape_self ..) below within
    refine ⟨(rt.setShape s (some { sh with hash := h })).withTable table n, h, ?_, fun _ => rfl, ?_,
      shapes, rfl,
      rfl⟩
    · simp only [relinkIfHashed, there, if_pos hashed, Option.bind_eq_bind, Option.bind_some]
      exact links
    · simpa only [hashed, and_true] using tabled₂
  · refine ⟨rt, sh.hash, ?_, fun yes => absurd yes hashed, ?_, fun t => ?_, rfl, rfl⟩
    · simp only [relinkIfHashed, there, if_neg hashed, Option.bind_eq_bind, Option.bind_some]
    · simpa only [hashed, Bool.false_eq_true, and_false, false_or] using tabled
    · by_cases here : t = s
      · rw [if_pos here, here, there]
      · rw [if_neg here]

theorem addShapeProperty_spec (heaped : Heaped rt none) (tabled : Tabled rt rt.HashedAt)
    (mine : rt.objects p = some o) (there : rt.shapes o.shape = some sh) (one : sh.refCount = 1)
    (few : sh.prop.length < 2 ^ 26) (named : atom ≠ 0) (fresh : ∀ i, atomAt sh.prop i ≠ atom) :
    ∃ rt' s' sh' values, addShapeProperty rt o.shape (some p) atom flags = some (s', rt') ∧
      rt'.objects p = some { o with prop := values } ∧
      Replaced rt (rt'.setObject p (some { o with shape := s', prop := values })) p o.shape sh'
        { o with shape := s', prop := values } ∧
      Tabled rt' rt'.HashedAt ∧ sh'.Valid ∧ sh'.Sealed ∧ sh'.refCount = 1 ∧ sh'.proto = sh.proto ∧
      sh'.isHashed = sh.isHashed ∧
      sh'.prop = sh.prop ++ [⟨atom, flags⟩] ∧ values.length = sh'.propSize ∧
      sh.prop.length < values.length ∧ sh.prop.zip values = sh.prop.zip o.prop := by
  have below := heaped.below _ sh there
  obtain ⟨sh₀, there₀, size⟩ := heaped.fits p o mine
  rw [there, Option.some.injEq] at there₀
  subst there₀
  obtain ⟨table, k, unlinks, tabled₁⟩ := tabled_unlinkIf tabled (hashedAt_iff there)
  obtain ⟨rt₁, made₁⟩ : ∃ rt₁, rt₁ = rt.withTable table k := ⟨_, rfl⟩
  have parts₁ : rt₁.shapes = rt.shapes ∧ rt₁.objects = rt.objects ∧ rt₁.heapTop = rt.heapTop := by
    rw [made₁]
    exact ⟨rfl, rfl, rfl⟩
  rw [← made₁] at unlinks tabled₁
  obtain ⟨s', rt₂, n, m, index, values, resizes, roomy, valid₂, room, size₂, zipped⟩ :=
    @resizeForProperty_spec _ rt₁ o.shape p sh o (heaped.valid _ sh there) (by rw [parts₁.1, there])
      (by rw [parts₁.2.2]; exact below) (by rw [parts₁.2.1, mine]) size few
  have place : s' = o.shape ∨ rt.shapes s' = none := by
    rcases roomy.place with same | new
    · exact .inl same
    · rw [new, parts₁.2.2]
      exact .inr (fresh_shape heaped)
  have absent : ¬ (s' ≠ o.shape ∧ rt.HashedAt s') := by
    rintro ⟨other, sh₃, his, -⟩
    rcases place with same | none
    · exact other same
    · rw [none] at his
      cases his
  have tabled₂ : Tabled rt₂ fun t => t ≠ o.shape ∧ rt.HashedAt t := by
    refine tabled_same tabled₁ roomy.table roomy.bits roomy.size roomy.count roomy.top
      (fun t sh₃ among his => ⟨sh₃, ?_, rfl⟩) fun _ => Iff.rfl
    rw [roomy.shapes, if_neg, if_neg among.1, his]
    rintro rfl
    exact absent among
  obtain ⟨h, hash⟩ : ∃ h, h = shapeHash (shapeHash sh.hash atom) flags := ⟨_, rfl⟩
  obtain ⟨rt₃, n₃, relinks, newHash, tabled₃, shapes₃, objects₃, top₃⟩ :=
    relinkIfHashed_spec tabled₂ absent (by rw [roomy.shapes, if_pos rfl]) roomy.inside
      (show h < 2 ^ 32 by rw [hash]; exact shapeHash_lt _ _)
  obtain ⟨x, copy⟩ : ∃ x : Shape,
    x = { sh with propSize := n, propHashMask := m, index := index, hash := n₃ } := ⟨_, rfl⟩
  have there₃ : rt₃.shapes s' = some x := by rw [shapes₃, if_pos rfl, copy]
  have shapes₄ : ∀ t, (rt₃.setShape s' (some (x.extended atom flags))).shapes t =
      if t = s' then some (x.extended atom flags) else if t = o.shape then none else rt.shapes t := by
    intro t
    by_cases here : t = s'
    · rw [if_pos here, here, setShape_self]
    · rw [if_neg here, setShape_of_ne _ _ here, shapes₃, if_neg here, roomy.shapes, if_neg here, parts₁.1]
  have objects₄ : ∀ q, (rt₃.setShape s' (some (x.extended atom flags))).objects q =
      if q = p then some { o with prop := values } else rt.objects q := by
    intro q
    show rt₃.objects q = _
    rw [objects₃, roomy.objects, parts₁.2.1]
  refine ⟨rt₃.setShape s' (some (x.extended atom flags)), s', x.extended atom flags, values,
    ?_, ?_, ?_, ?_, ?_, ?_, ?_, ?_, ?_, ?_, ?_, ?_, zipped⟩
  · have short : x.prop.length < 2 ^ 26 := by
      rw [copy]
      exact few
    simp only [addShapeProperty, there, unlinks, resizes, ← hash, relinks, there₃, guard, if_pos short,
      Option.bind_eq_bind, Option.bind_some, Option.pure_def]
  · rw [objects₄, if_pos rfl]
  · refine ⟨fun t => shapes₄ t, fun q => ?_, ?_, ?_, place⟩
    · rw [setObject_objects, objects₄]
      by_cases here : q = p
      · rw [if_pos here, if_pos here]
      · rw [if_neg here, if_neg here, if_neg here]
    · show rt.heapTop ≤ rt₃.heapTop
      rw [top₃, ← parts₁.2.2]
      exact roomy.top
    · show s' < rt₃.heapTop
      rw [top₃]
      exact roomy.inside
  · refine tabled_iff (tabled_write tabled₃ fun _ => ⟨x, _, there₃, rfl, rfl⟩) fun t => ?_
    simp only [ShapeRuntime.HashedAt, shapes₄]
    by_cases here : t = s'
    · subst here
      have no : ¬ (t ≠ o.shape ∧ ∃ sh, rt.shapes t = some sh ∧ sh.isHashed = true) := absent
      simp [no, copy, Shape.extended]
    · by_cases here' : t = o.shape
      · subst here'
        simp [here]
      · simp [here, here']
  · have valid₃ : x.Valid := by
      rw [copy]
      exact valid₂.relabel sh.refCount n₃ sh.isHashed sh.proto
    exact valid₃.extended (by rw [copy]; exact room) named (by rw [copy]; exact fresh)
  · intro hashed
    rw [copy] at hashed ⊢
    obtain ⟨dense, before⟩ := heaped.sealed _ sh there hashed
    refine ⟨dense, ?_⟩
    show n₃ = contentHash sh.proto (sh.prop ++ [⟨atom, flags⟩])
    rw [newHash hashed, hash, contentHash_append, ← before]
  · rw [copy]
    exact one
  · rw [copy]
    rfl
  · rw [copy]
    rfl
  · rw [copy]
    rfl
  · rw [copy]
    exact size₂
  · rw [size₂]
    exact room

end Adding

section Properties
variable {rt rt' : ShapeRuntime α} {s s' t p q : Addr} {sh sh1 sh' : Shape} {o o' : JSObject α}
  {values : List (Option α)} {c : Content α} {atom : JSAtom} {flags : Nat}

theorem slots_props (room : sh.prop.length ≤ o.prop.length) : (contentOf sh o).slots.map Prod.fst = sh.prop :=
  List.map_fst_zip room

theorem slots_length (room : sh.prop.length ≤ o.prop.length) :
    (contentOf sh o).slots.length = sh.prop.length := by
  rw [← List.length_map Prod.fst, slots_props room]

theorem heaped_withTable {held : Option Addr} (heaped : Heaped rt held) (table : Links Addr) (n : Nat) :
    Heaped (rt.withTable table n) held :=
  heaped_congr heaped rfl rfl rfl

theorem linked_alloc (heaped : Heaped rt none) (tabled : Tabled rt rt.HashedAt) (valid : sh.Valid)
    (sealed : sh.Sealed) (one : sh.refCount = 1) (hashed : sh.isHashed = true) :
    ∃ rt', jsShapeHashLink (rt.allocShape sh).2 rt.heapTop = some rt' ∧ Heaped rt' (some rt.heapTop) ∧
      Tabled rt' rt'.HashedAt ∧ rt'.objects = rt.objects ∧
      (∀ t, rt'.shapes t = if t = rt.heapTop then some sh else rt.shapes t) ∧
      ∀ q, rt'.content q = rt.content q := by
  have heaped₁ := heaped_alloc heaped valid sealed one
  have shapes₁ := allocShape_shapes rt sh
  have mine₁ : (rt.allocShape sh).2.shapes rt.heapTop = some sh := by rw [shapes₁, if_pos rfl]
  have unfiled : ¬ rt.HashedAt rt.heapTop := by
    rintro ⟨sh₂, his, -⟩
    rw [fresh_shape heaped] at his
    cases his
  obtain ⟨table, n, links, tabled₂⟩ := tabled_link (tabled_alloc heaped tabled sh) unfiled mine₁
    (Nat.lt_succ_self _) (hash_lt heaped₁ mine₁ hashed)
  refine ⟨(rt.allocShape sh).2.withTable table n, links, heaped_withTable heaped₁ table n, ?_, rfl, shapes₁,
    content_alloc heaped sh⟩
  refine tabled_same tabled₂ rfl rfl rfl rfl (Nat.le_refl _) (fun t sh₂ _ his => ⟨sh₂, his, rfl⟩) fun t => ?_
  show (rt.allocShape sh).2.HashedAt t ↔ _
  simp only [ShapeRuntime.HashedAt, shapes₁]
  by_cases here : t = rt.heapTop
  · simp [here, hashed]
  · simp [here]

/-- Where `add_property` comes to a shape that is not shared, and still in the table if it was. -/
theorem cloneIfShared_spec (sound : Sound rt) (mine : rt.objects p = some o)
    (there : rt.shapes o.shape = some sh) :
    ∃ rt' s', cloneIfShared rt p o sh = some rt' ∧ Heaped rt' none ∧ Tabled rt' rt'.HashedAt ∧
      CanonicalBut rt' s' ∧ rt'.objects p = some { o with shape := s' } ∧
      rt'.shapes s' = some { sh with refCount := 1 } ∧
      (∀ t sh₂, t ≠ s' → rt'.shapes t = some sh₂ →
        ∃ sh₁ n, rt.shapes t = some sh₁ ∧ sh₂ = { sh₁ with refCount := n }) ∧
      ∀ q, rt'.content q = rt.content q := by
  have heaped := sound.heaped
  obtain ⟨sh₀, there₀, size⟩ := heaped.fits p o mine
  rw [there, Option.some.injEq] at there₀
  subst there₀
  by_cases shared : sh.isHashed = true ∧ sh.refCount ≠ 1
  · obtain ⟨x, copy⟩ : ∃ x : Shape, x = { sh with refCount := 1 } := ⟨_, rfl⟩
    have sealed : x.Sealed := by
      rw [copy]
      exact heaped.sealed _ sh there
    have valid : x.Valid := by
      rw [copy]
      exact (heaped.valid _ sh there).relabel 1 sh.hash sh.isHashed sh.proto
    have hashed : x.isHashed = true := by
      rw [copy]
      exact shared.1
    have apart : o.shape ≠ rt.heapTop := Nat.ne_of_lt (heaped.below _ sh there)
    obtain ⟨rt₂, links, heaped₂, tabled₂, objects₂, shapes₂, contents₂⟩ :=
      linked_alloc heaped sound.tabled valid sealed (by rw [copy]) hashed
    obtain ⟨rt', exchanges, heaped', tabled', mine', there', shapes', contents'⟩ :=
      @exchange_spec _ rt₂ rt.heapTop p x o o.prop heaped₂ tabled₂ (by rw [objects₂, mine])
        (by rw [shapes₂, if_pos rfl]) apart (by rw [copy]; exact size)
    have origin : ∀ t sh₂, t ≠ rt.heapTop → rt'.shapes t = some sh₂ →
        ∃ sh₁ n, rt.shapes t = some sh₁ ∧ sh₂ = { sh₁ with refCount := n } := by
      intro t sh₂ other his
      obtain ⟨sh₁, k, old, same⟩ := shapes' t sh₂ his
      rw [shapes₂, if_neg other] at old
      exact ⟨sh₁, k, old, same⟩
    refine ⟨rt', rt.heapTop, ?_, heaped', tabled', ?_, mine', ?_, origin, fun q => ?_⟩
    · rw [cloneIfShared, if_pos shared]
      have clones : jsCloneShape rt o.shape =
          some (rt.heapTop, (rt.allocShape { sh with refCount := 1, isHashed := false }).2) := by
        rw [jsCloneShape, there]
        rfl
      have again : (rt.allocShape { sh with refCount := 1, isHashed := false }).2.setShape rt.heapTop
          (some { sh with refCount := 1 }) = (rt.allocShape x).2 := by
        rw [copy]
        simp [ShapeRuntime.allocShape, ShapeRuntime.setShape]
      simp only [clones, Option.bind_eq_bind, Option.bind_some, again, links, exchanges]
    · exact canonical_of_shapes (sound.canonical.but _) fun t sh₂ other his _ => origin t sh₂ other his
    · rw [there', copy]
    · rw [contents', contents₂]
      by_cases here : q = p
      · subst here
        rw [if_pos rfl, content_eq mine there, copy]
        rfl
      · rw [if_neg here]
  · have one : sh.refCount = 1 := by
      by_cases hashed : sh.isHashed = true
      · exact not_not.1 fun other => shared ⟨hashed, other⟩
      · exact heaped.alone _ sh there (by simpa using hashed)
    refine ⟨rt, o.shape, by rw [cloneIfShared, if_neg shared], heaped, sound.tabled, sound.canonical.but _,
      mine,
      ?_, fun t sh₂ _ his => ⟨sh₂, sh₂.refCount, his, rfl⟩, fun _ => rfl⟩
    rw [there, ← one]

theorem existingShape_spec (sound : Sound rt) (there : rt.shapes t = some sh) (atom : JSAtom) (flags : Nat) :
    ∃ r, existingShape rt sh atom flags = some r ∧
      (∀ s, r = some s → ∃ sh1, rt.shapes s = some sh1 ∧ sh1.isHashed = true ∧ sh1.proto = sh.proto ∧
        sh1.prop = sh.prop ++ [⟨atom, flags⟩]) ∧
      (r = none → sh.isHashed = true → ∀ s sh1, rt.shapes s = some sh1 → sh1.isHashed = true →
        ¬ (sh1.proto = sh.proto ∧ sh1.prop = sh.prop ++ [⟨atom, flags⟩])) := by
  have heaped := sound.heaped
  by_cases hashed : sh.isHashed = true
  · obtain ⟨r, finds, hit, miss⟩ :=
      findHashedShapeProp_spec heaped sound.tabled (heaped.sealed _ sh there) hashed
      atom flags
    exact ⟨r, by rw [existingShape, if_pos hashed, finds], hit, fun none _ => miss none⟩
  · exact ⟨none, by rw [existingShape, if_neg hashed], fun s no => (by cases no),
      fun _ yes => absurd yes hashed⟩

def Appends (rt : ShapeRuntime α) (p : Addr) (o : JSObject α) (sh : Shape) (atom : JSAtom) (flags : Nat) :
    Prop :=
  ∃ rt' v, addProperty rt p atom flags = some (sh.prop.length, rt') ∧ Sound rt' ∧
    ∀ q, rt'.content q = if q = p then
      some { contentOf sh o with slots := (contentOf sh o).slots ++ [(⟨atom, flags⟩, v)] } else rt.content q

theorem addProperty_existing (sound : Sound rt) (mine : rt.objects p = some o)
    (there : rt.shapes o.shape = some sh) (size : o.prop.length = sh.propSize)
    (room : sh.prop.length ≤ o.prop.length) (finds : existingShape rt sh atom flags = some (some s))
    (there1 : rt.shapes s = some sh1) (hashed1 : sh1.isHashed = true) (proto1 : sh1.proto = sh.proto)
    (prop1 : sh1.prop = sh.prop ++ [⟨atom, flags⟩]) : Appends rt p o sh atom flags := by
  have heaped := sound.heaped
  have apart : o.shape ≠ s := by
    intro same
    rw [← same, there, Option.some.injEq] at there1
    rw [← there1] at prop1
    have lengths := congrArg List.length prop1
    rw [List.length_append, List.length_singleton] at lengths
    omega
  have valid1 := heaped.valid s sh1 there1
  have length1 : sh1.prop.length = sh.prop.length + 1 := by
    rw [prop1, List.length_append, List.length_singleton]
  have room1 := valid1.room
  obtain ⟨values, resized⟩ : ∃ values, values =
      (if sh1.propSize ≠ sh.propSize then reallocProp o.prop sh1.propSize else o.prop) := ⟨_, rfl⟩
  have size1 : values.length = sh1.propSize := by
    rw [resized]
    by_cases other : sh1.propSize ≠ sh.propSize
    · rw [if_pos other, length_reallocProp]
    · rw [if_neg other, size, not_not.1 other]
  have zipped : sh.prop.zip values = sh.prop.zip o.prop := by
    rw [resized]
    by_cases other : sh1.propSize ≠ sh.propSize
    · rw [if_pos other, zip_reallocProp (by omega) room]
    · rw [if_neg other]
  obtain ⟨rt₁, dups, heaped₁, tabled₁, recounted₁, there₁⟩ := dup_spec heaped sound.tabled there1 hashed1
  obtain ⟨rt', exchanges, heaped', tabled', mine', there', shapes', contents'⟩ :=
    @exchange_spec _ rt₁ s p _ o values heaped₁ tabled₁ (by rw [recounted₁.objects, mine]) there₁ apart size1
  have inside : sh.prop.length < values.length := by omega
  refine ⟨rt', values[sh.prop.length], ?_, ⟨heaped', tabled', ?_⟩, fun q => ?_⟩
  · simp only [addProperty, mine, there, finds, there1, dups, ← resized, exchanges, Option.bind_eq_bind,
      Option.bind_some]
    rw [length1, Nat.add_sub_cancel]
  · have origin : ∀ t sh₂, rt'.shapes t = some sh₂ → ∃ sh₁ n, rt.shapes t = some sh₁ ∧
        sh₂ = { sh₁ with refCount := n } := by
      intro t sh₂ his
      obtain ⟨sh₃, n, old, rfl⟩ := shapes' t sh₂ his
      obtain ⟨sh₄, k, older, rfl⟩ := recounted₁.shapes t sh₃ old
      exact ⟨sh₄, n, older, rfl⟩
    intro t u sh₂ sh₃ his his' hashed hashed' proto prop
    obtain ⟨sh₄, n, old, rfl⟩ := origin t sh₂ his
    obtain ⟨sh₅, k, old', rfl⟩ := origin u sh₃ his'
    exact sound.canonical t u sh₄ sh₅ old old' hashed hashed' proto prop
  · rw [contents', recounted₁.content heaped]
    by_cases here : q = p
    · rw [if_pos here, if_pos here, contentOf, contentOf, prop1, proto1, ← zipped]
      have last := zip_append_set inside (⟨atom, flags⟩ : ShapeProperty) values[sh.prop.length]
      rw [List.set_getElem_self] at last
      simp only [last]
    · rw [if_neg here, if_neg here]

theorem addProperty_new (sound : Sound rt) (mine : rt.objects p = some o)
    (there : rt.shapes o.shape = some sh) (few : sh.prop.length < 2 ^ 26) (named : atom ≠ 0)
    (fresh : ∀ i, atomAt sh.prop i ≠ atom) (finds : existingShape rt sh atom flags = some none)
    (miss : sh.isHashed = true → ∀ s sh1, rt.shapes s = some sh1 → sh1.isHashed = true →
      ¬ (sh1.proto = sh.proto ∧ sh1.prop = sh.prop ++ [⟨atom, flags⟩])) : Appends rt p o sh atom flags := by
  obtain ⟨rt₁, s₁, clones, heaped₁, tabled₁, canonical₁, mine₁, there₁, origin₁, contents₁⟩ :=
    cloneIfShared_spec sound mine there
  obtain ⟨rt₂, s', sh', values, adds, mine₂, replaced,
    tabled₂, valid', sealed', one', proto', hashed', prop', size',
    inside, zipped⟩ := @addShapeProperty_spec _ rt₁ p _ _ atom flags heaped₁ tabled₁ mine₁ there₁ rfl
      few named fresh
  refine ⟨rt₂.setObject p (some { o with shape := s', prop := values }), values[sh.prop.length],
    ?_, ⟨?_, ?_, ?_⟩, fun q => ?_⟩
  · simp only [addProperty, mine, there, finds, clones, mine₁, there₁, guard, if_true, adds, mine₂,
      Option.bind_eq_bind, Option.bind_some, Option.pure_def]
  · exact replaced.heaped heaped₁ mine₁ there₁ rfl valid' sealed' one' size'
  · exact tabled_setObject tabled₂ _ _
  · refine replaced.canonical canonical₁ fun hashed t sh₂ other his hashed₂ same => ?_
    obtain ⟨sh₁, n, old, rfl⟩ := origin₁ t sh₂ other his
    refine miss (hashed' ▸ hashed) t sh₁ old hashed₂ ⟨same.1.trans proto', same.2.trans prop'⟩
  · rw [replaced.content heaped₁ mine₁ there₁ rfl, contents₁]
    by_cases here : q = p
    · rw [if_pos here, if_pos here, contentOf, contentOf, prop', proto', ← zipped]
      have last := zip_append_set inside (⟨atom, flags⟩ : ShapeProperty) values[sh.prop.length]
      rw [List.set_getElem_self] at last
      simp only [last]
    · rw [if_neg here, if_neg here]

theorem addProperty_spec (sound : Sound rt) (known : rt.content p = some c) (few : c.slots.length < 2 ^ 26)
    (named : atom ≠ 0) (fresh : ∀ x ∈ c.slots, x.1.atom ≠ atom) (flags : Nat) :
    ∃ rt' v, addProperty rt p atom flags = some (c.slots.length, rt') ∧ Sound rt' ∧
      ∀ q, rt'.content q = if q = p then some { c with slots := c.slots ++ [(⟨atom, flags⟩, v)] }
        else rt.content q := by
  have heaped := sound.heaped
  obtain ⟨o, sh, mine, there, rfl, size, valid⟩ := object_of heaped known
  have room : sh.prop.length ≤ o.prop.length := by
    rw [size]
    exact valid.room
  rw [slots_length room] at few ⊢
  have fresh' : ∀ i, atomAt sh.prop i ≠ atom := by
    intro i same
    obtain ⟨pr, his, equal⟩ := property_at (same ▸ named : atomAt sh.prop i ≠ 0)
    have member := List.mem_of_getElem? his
    rw [← slots_props room] at member
    obtain ⟨x, inside, rfl⟩ := List.mem_map.1 member
    exact fresh x inside (equal.trans same)
  obtain ⟨r, finds, hit, miss⟩ := existingShape_spec sound there atom flags
  cases r with
  | some s =>
    obtain ⟨sh1, there1, hashed1, proto1, prop1⟩ := hit s rfl
    exact addProperty_existing sound mine there size room finds there1 hashed1 proto1 prop1
  | none => exact addProperty_new sound mine there few named fresh' finds (miss rfl)

end Properties

end QuickJSBridge.Shapes
