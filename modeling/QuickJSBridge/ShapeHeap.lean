import Mathlib
import QuickJSBridge.ShapeIndex

/- The shapes and objects of a runtime: a shape has a count for each object with it, one that is
   not hashed belongs to a single object, and the table files exactly the hashed ones. While a
   function runs it may have one count more. -/
namespace QuickJSBridge.Shapes
open HashChains
open Atoms (JSAtom atomIsTaggedInt)

variable {α : Type}

/-- An object with its properties in their places, the deleted ones among them. -/
structure Content (α : Type) where
  proto : Option Addr
  extensible : Bool
  slots : List (ShapeProperty × Option α)

def contentOf (sh : Shape) (o : JSObject α) : Content α := ⟨sh.proto, o.extensible, sh.prop.zip o.prop⟩

namespace ShapeRuntime

def HashedAt (rt : ShapeRuntime α) (s : Addr) : Prop := ∃ sh, rt.shapes s = some sh ∧ sh.isHashed = true

/-- The objects with a shape. -/
def usersOf (rt : ShapeRuntime α) (s : Addr) : Set Addr := {p | ∃ o, rt.objects p = some o ∧ o.shape = s}

def content (rt : ShapeRuntime α) (p : Addr) : Option (Content α) := do
  let o ← rt.objects p
  let sh ← rt.shapes o.shape
  some (contentOf sh o)

def withTable (rt : ShapeRuntime α) (table : Links Addr) (count : Nat) : ShapeRuntime α :=
  { rt with table := table, shapeHashCount := count }

end ShapeRuntime

structure Tabled (rt : ShapeRuntime α) (filed : Addr → Prop) : Prop where
  chained : Filed rt.table (rt.bucketOf rt.shapeHashBits) filed
  known : ∀ s, filed s → s < rt.heapTop ∧ ∃ sh, rt.shapes s = some sh ∧ sh.hash < 2 ^ 32
  count : {s | filed s}.ncard = rt.shapeHashCount
  size : rt.shapeHashSize = 2 ^ rt.shapeHashBits
  bits : rt.shapeHashBits ≤ 30

def Shape.Sealed (sh : Shape) : Prop :=
  sh.isHashed = true → sh.deletedPropCount = 0 ∧ sh.hash = contentHash sh.proto sh.prop

def heldAt (held : Option Addr) (s : Addr) : Nat := if held = some s then 1 else 0

structure Heaped (rt : ShapeRuntime α) (held : Option Addr) : Prop where
  below : ∀ s sh, rt.shapes s = some sh → s < rt.heapTop
  inside : ∀ p o, rt.objects p = some o → p < rt.heapTop
  valid : ∀ s sh, rt.shapes s = some sh → sh.Valid
  sealed : ∀ s sh, rt.shapes s = some sh → sh.Sealed
  counted : ∀ s sh, rt.shapes s = some sh → (rt.usersOf s).ncard + heldAt held s = sh.refCount
  used : ∀ s sh, rt.shapes s = some sh → 0 < sh.refCount
  alone : ∀ s sh, rt.shapes s = some sh → sh.isHashed = false → sh.refCount = 1
  fits : ∀ p o, rt.objects p = some o → ∃ sh, rt.shapes o.shape = some sh ∧ o.prop.length = sh.propSize

/-- There is one hashed shape for the same prototype and properties. -/
def Canonical (rt : ShapeRuntime α) : Prop :=
  ∀ s t sh sh', rt.shapes s = some sh → rt.shapes t = some sh' → sh.isHashed = true → sh'.isHashed = true →
    sh.proto = sh'.proto → sh.prop = sh'.prop → s = t

def CanonicalBut (rt : ShapeRuntime α) (x : Addr) : Prop :=
  ∀ s t sh sh', s ≠ x → t ≠ x → rt.shapes s = some sh → rt.shapes t = some sh' → sh.isHashed = true →
    sh'.isHashed = true → sh.proto = sh'.proto → sh.prop = sh'.prop → s = t

structure Sound (rt : ShapeRuntime α) : Prop where
  heaped : Heaped rt none
  tabled : Tabled rt rt.HashedAt
  canonical : Canonical rt

section Basics
variable {rt rt' : ShapeRuntime α} {held : Option Addr} {filed filed' : Addr → Prop} {s t p q : Addr}
  {sh sh' : Shape} {o o' : JSObject α}

theorem heldAt_self (s : Addr) : heldAt (some s) s = 1 := if_pos rfl

theorem heldAt_none (s : Addr) : heldAt none s = 0 := if_neg (by simp)

theorem heldAt_of_ne (other : t ≠ s) : heldAt (some t) s = 0 := if_neg (by simpa using other)

theorem bucketOf_eq (there : rt.shapes s = some sh) (bits : Nat) :
    rt.bucketOf bits s = getShapeHash sh.hash bits := by
  simp [ShapeRuntime.bucketOf, there]

theorem content_eq (object : rt.objects p = some o) (shape : rt.shapes o.shape = some sh) :
    rt.content p = some (contentOf sh o) := by
  simp [ShapeRuntime.content, object, shape]

theorem content_congr (object : rt'.objects q = rt.objects q)
    (shape : ∀ o, rt.objects q = some o → ∀ sh, rt.shapes o.shape = some sh →
      ∃ sh', rt'.shapes o.shape = some sh' ∧ sh'.proto = sh.proto ∧ sh'.prop = sh.prop)
    (heaped : Heaped rt held) : rt'.content q = rt.content q := by
  cases mine : rt.objects q with
  | none => simp [ShapeRuntime.content, object, mine]
  | some o =>
    obtain ⟨sh, there, -⟩ := heaped.fits q o mine
    obtain ⟨sh', there', proto, prop⟩ := shape o mine sh there
    rw [content_eq mine there, content_eq (object.trans mine) there', contentOf, contentOf, proto, prop]

theorem users_finite (heaped : Heaped rt held) (s : Addr) : (rt.usersOf s).Finite := by
  refine (Set.finite_Iio rt.heapTop).subset ?_
  rintro p ⟨o, mine, -⟩
  exact heaped.inside p o mine

theorem filed_finite (tabled : Tabled rt filed) : {s | filed s}.Finite := by
  refine (Set.finite_Iio rt.heapTop).subset ?_
  intro s there
  exact (tabled.known s there).1

theorem tabled_listed (tabled : Tabled rt filed) (there : filed s) : s ∈ List.range rt.heapTop :=
  List.mem_range.2 (tabled.known s there).1

theorem hash_lt (heaped : Heaped rt held) (there : rt.shapes s = some sh) (hashed : sh.isHashed = true) :
    sh.hash < 2 ^ 32 := by
  rw [(heaped.sealed s sh there hashed).2]
  exact contentHash_lt _ _

theorem tabled_same (tabled : Tabled rt filed) (table : rt'.table = rt.table)
    (bits : rt'.shapeHashBits = rt.shapeHashBits) (size : rt'.shapeHashSize = rt.shapeHashSize)
    (count : rt'.shapeHashCount = rt.shapeHashCount) (top : rt.heapTop ≤ rt'.heapTop)
    (shapes : ∀ s sh, filed s → rt.shapes s = some sh → ∃ sh', rt'.shapes s = some sh' ∧ sh'.hash = sh.hash)
    (same : ∀ s, filed' s ↔ filed s) : Tabled rt' filed' where
  chained := by
    refine filed_of_same tabled.chained (fun b => by rw [table]) (fun s _ => by rw [table])
      same fun s there => ?_
    obtain ⟨-, sh, mine, -⟩ := tabled.known s there
    obtain ⟨sh', mine', hash⟩ := shapes s sh there mine
    rw [bucketOf_eq mine', bucketOf_eq mine, hash, bits]
  known := fun s there => by
    obtain ⟨inside, sh, mine, within⟩ := tabled.known s ((same s).1 there)
    obtain ⟨sh', mine', hash⟩ := shapes s sh ((same s).1 there) mine
    exact ⟨Nat.lt_of_lt_of_le inside top, sh', mine', by rw [hash]; exact within⟩
  count := by
    rw [count, ← tabled.count]
    exact congrArg Set.ncard (Set.ext same)
  size := by rw [size, bits, tabled.size]
  bits := by rw [bits]; exact tabled.bits

theorem tabled_link (tabled : Tabled rt filed) (fresh : ¬ filed s) (there : rt.shapes s = some sh)
    (below : s < rt.heapTop) (within : sh.hash < 2 ^ 32) :
    ∃ table n, jsShapeHashLink rt s = some (rt.withTable table n) ∧
      Tabled (rt.withTable table n) fun t => t = s ∨ filed t := by
  refine ⟨rt.table.push (getShapeHash sh.hash rt.shapeHashBits) s, rt.shapeHashCount + 1, ?_, ?_⟩
  · rw [jsShapeHashLink, there]
    rfl
  · have pushed := filed_push tabled.chained fresh
    rw [bucketOf_eq there] at pushed
    refine ⟨pushed, fun t among => ?_, ?_, tabled.size, tabled.bits⟩
    · rcases among with rfl | other
      · exact ⟨below, sh, there, within⟩
      · exact tabled.known t other
    · show {t | t = s ∨ filed t}.ncard = rt.shapeHashCount + 1
      rw [← tabled.count]
      exact Set.ncard_insert_of_notMem fresh (filed_finite tabled)

theorem tabled_unlink (tabled : Tabled rt filed) (mine : filed s) :
    ∃ table n, jsShapeHashUnlink rt s = some (rt.withTable table n) ∧
      Tabled (rt.withTable table n) fun t => t ≠ s ∧ filed t := by
  obtain ⟨below, sh, there, within⟩ := tabled.known s mine
  obtain ⟨table, unlinks, filed', -⟩ := unlink_filed tabled.chained (fun t => t = s) mine
    (fun t _ _ => by simp) (fun t among => tabled_listed tabled among)
    (by rw [List.length_range])
  rw [bucketOf_eq there] at unlinks
  refine ⟨table, rt.shapeHashCount - 1, ?_, filed', fun t among => tabled.known t among.2, ?_, tabled.size,
    tabled.bits⟩
  · rw [jsShapeHashUnlink, there, Option.bind_eq_bind, Option.bind_some, unlinks]
    rfl
  · show {t | t ≠ s ∧ filed t}.ncard = rt.shapeHashCount - 1
    rw [← tabled.count, ← Set.ncard_sdiff_singleton_of_mem (show s ∈ {t | filed t} from mine)]
    refine congrArg Set.ncard (Set.ext fun t => ?_)
    simp [and_comm]

theorem hashedAt_iff (there : rt.shapes s = some sh) : sh.isHashed = true ↔ rt.HashedAt s := by
  simp [ShapeRuntime.HashedAt, there]

theorem tabled_unlinkIf (tabled : Tabled rt filed) {isHashed : Bool} (hashed : isHashed = true ↔ filed s) :
    ∃ table n, unlinkIfHashed rt s isHashed = some (rt.withTable table n) ∧
      Tabled (rt.withTable table n) fun t => t ≠ s ∧ filed t := by
  by_cases there : isHashed = true
  · rw [unlinkIfHashed, if_pos there]
    exact tabled_unlink tabled (hashed.1 there)
  · refine ⟨rt.table, rt.shapeHashCount, by rw [unlinkIfHashed, if_neg there]; rfl, ?_⟩
    refine tabled_same tabled rfl rfl rfl rfl (Nat.le_refl _) (fun t sh _ mine => ⟨sh, mine, rfl⟩) fun t => ?_
    refine ⟨fun both => both.2, fun mine => ⟨?_, mine⟩⟩
    rintro rfl
    exact there (hashed.2 mine)

theorem tabled_resize (tabled : Tabled rt filed) (small : rt.shapeHashBits < 30) :
    ∃ rt', resizeShapeHash rt (rt.shapeHashBits + 1) = some rt' ∧ Tabled rt' filed ∧
      rt'.shapes = rt.shapes ∧ rt'.objects = rt.objects ∧ rt'.heapTop = rt.heapTop := by
  have few := tabled.bits
  have bounded : ∀ s, filed s → rt.bucketOf rt.shapeHashBits s < rt.shapeHashSize := by
    intro s there
    obtain ⟨-, sh, mine, within⟩ := tabled.known s there
    rw [bucketOf_eq mine, tabled.size]
    exact getShapeHash_lt within (by omega)
  obtain ⟨table, moved, filed', -⟩ : ∃ l',
      rehash (rt.bucketOf (rt.shapeHashBits + 1)) rt.shapeHashSize rt.heapTop rt.table = some l' ∧
        Filed l' (rt.bucketOf (rt.shapeHashBits + 1)) filed ∧ ∀ j, ¬ filed j → l'.next j = rt.table.next j :=
    filed_rehash tabled.chained bounded (fun s there => tabled_listed tabled there) (by rw [List.length_range])
  refine ⟨{ rt with
    shapeHashBits := rt.shapeHashBits + 1
    shapeHashSize := 2 ^ (rt.shapeHashBits + 1)
    table := table }, ?_, ⟨filed', tabled.known, tabled.count, rfl, ?_⟩, rfl, rfl, rfl⟩
  · rw [resizeShapeHash, guard, if_pos (by omega), moved]
    rfl
  · show rt.shapeHashBits + 1 ≤ 30
    omega

theorem heaped_congr (heaped : Heaped rt held) (shapes : rt'.shapes = rt.shapes)
    (objects : rt'.objects = rt.objects) (top : rt'.heapTop = rt.heapTop) : Heaped rt' held := by
  obtain ⟨below, inside, valid, sealed, counted, used, alone, fits⟩ := heaped
  rw [← shapes, ← top] at below
  rw [← objects, ← top] at inside
  rw [← shapes] at valid sealed used alone
  refine ⟨below, inside, valid, sealed, fun t sh his => ?_, used, alone, fun p o mine => ?_⟩
  · rw [ShapeRuntime.usersOf, objects]
    exact counted t sh (by rw [← shapes]; exact his)
  · rw [shapes]
    exact fits p o (by rw [← objects]; exact mine)

end Basics

section Counts
variable {rt rt' : ShapeRuntime α} {held held' : Option Addr} {s t p q : Addr} {sh sh' : Shape}
  {o o' : JSObject α} {values : List (Option α)}

theorem users_write {x : Option (JSObject α)} (objects : ∀ q, rt'.objects q = if q = p then x else rt.objects q)
    (t : Addr) : q ∈ rt'.usersOf t ↔ (q = p ∧ ∃ o, x = some o ∧ o.shape = t) ∨ (q ≠ p ∧ q ∈ rt.usersOf t) := by
  simp only [ShapeRuntime.usersOf, Set.mem_ofPred_eq, objects]
  by_cases here : q = p <;> simp [here]

theorem users_join (heaped : Heaped rt held)
    (objects : ∀ q, rt'.objects q = if q = p then some o' else rt.objects q) (fresh : p ∉ rt.usersOf o'.shape) :
    (rt'.usersOf o'.shape).ncard = (rt.usersOf o'.shape).ncard + 1 := by
  rw [← Set.ncard_insert_of_notMem fresh (users_finite heaped _)]
  refine congrArg Set.ncard (Set.ext fun q => ?_)
  rw [users_write objects, Set.mem_insert_iff]
  by_cases here : q = p <;> simp [here]

theorem users_leave {x : Option (JSObject α)}
    (objects : ∀ q, rt'.objects q = if q = p then x else rt.objects q) (member : p ∈ rt.usersOf t)
    (left : ∀ o, x = some o → o.shape ≠ t) : (rt'.usersOf t).ncard = (rt.usersOf t).ncard - 1 := by
  rw [← Set.ncard_sdiff_singleton_of_mem member]
  refine congrArg Set.ncard (Set.ext fun q => ?_)
  rw [users_write objects, Set.mem_sdiff, Set.mem_singleton_iff]
  constructor
  · rintro (⟨-, o, given, same⟩ | ⟨other, there⟩)
    · exact absurd same (left o given)
    · exact ⟨there, other⟩
  · rintro ⟨there, other⟩
    exact .inr ⟨other, there⟩

theorem users_same {x : Option (JSObject α)}
    (objects : ∀ q, rt'.objects q = if q = p then x else rt.objects q) (absent : p ∉ rt.usersOf t)
    (other : ∀ o, x = some o → o.shape ≠ t) : rt'.usersOf t = rt.usersOf t := by
  refine Set.ext fun q => ?_
  rw [users_write objects]
  constructor
  · rintro (⟨-, o, given, same⟩ | ⟨-, there⟩)
    · exact absurd same (other o given)
    · exact there
  · intro there
    refine .inr ⟨?_, there⟩
    rintro rfl
    exact absent there

theorem user_of (mine : rt.objects p = some o) : p ∈ rt.usersOf o.shape := ⟨o, mine, rfl⟩

theorem shape_of_user (mine : rt.objects p = some o) (user : p ∈ rt.usersOf t) : o.shape = t := by
  obtain ⟨o', mine', same⟩ := user
  rw [mine, Option.some.injEq] at mine'
  rw [mine', same]

theorem heaped_recount (heaped : Heaped rt held) (there : rt.shapes s = some sh) {n : Nat} (positive : 0 < n)
    (alone : sh.isHashed = false → n = 1) (count : (rt.usersOf s).ncard + heldAt held' s = n)
    (others : ∀ t, t ≠ s → heldAt held' t = heldAt held t) :
    Heaped (rt.setShape s (some { sh with refCount := n })) held' := by
  have shapes : ∀ t sh', (rt.setShape s (some { sh with refCount := n })).shapes t = some sh' →
      (t = s ∧ sh' = { sh with refCount := n }) ∨ (t ≠ s ∧ rt.shapes t = some sh') := by
    intro t sh' mine
    by_cases here : t = s
    · subst here
      simp only [ShapeRuntime.setShape, Function.update_self, Option.some.injEq] at mine
      exact .inl ⟨rfl, mine.symm⟩
    · simp only [ShapeRuntime.setShape, Function.update_of_ne here] at mine
      exact .inr ⟨here, mine⟩
  refine ⟨?_, heaped.inside, ?_, ?_, ?_, ?_, ?_, ?_⟩
  · intro t sh' mine
    rcases shapes t sh' mine with ⟨rfl, -⟩ | ⟨-, old⟩
    · exact heaped.below t sh there
    · exact heaped.below t sh' old
  · intro t sh' mine
    rcases shapes t sh' mine with ⟨rfl, rfl⟩ | ⟨-, old⟩
    · exact (heaped.valid t sh there).relabel _ _ _ _
    · exact heaped.valid t sh' old
  · intro t sh' mine
    rcases shapes t sh' mine with ⟨rfl, rfl⟩ | ⟨-, old⟩
    · exact heaped.sealed t sh there
    · exact heaped.sealed t sh' old
  · intro t sh' mine
    rcases shapes t sh' mine with ⟨rfl, rfl⟩ | ⟨other, old⟩
    · exact count
    · rw [others t other]
      exact heaped.counted t sh' old
  · intro t sh' mine
    rcases shapes t sh' mine with ⟨rfl, rfl⟩ | ⟨-, old⟩
    · exact positive
    · exact heaped.used t sh' old
  · intro t sh' mine
    rcases shapes t sh' mine with ⟨rfl, rfl⟩ | ⟨-, old⟩
    · exact alone
    · exact heaped.alone t sh' old
  · intro p o mine
    obtain ⟨sh', old, size⟩ := heaped.fits p o mine
    by_cases here : o.shape = s
    · rw [here] at old ⊢
      rw [there, Option.some.injEq] at old
      subst old
      exact ⟨_, Function.update_self .., size⟩
    · exact ⟨sh', (Function.update_of_ne here _ _).trans old, size⟩

structure Recounted (rt rt' : ShapeRuntime α) : Prop where
  objects : rt'.objects = rt.objects
  top : rt'.heapTop = rt.heapTop
  shapes : ∀ s sh', rt'.shapes s = some sh' → ∃ sh n, rt.shapes s = some sh ∧ sh' = { sh with refCount := n }
  kept : ∀ p o sh, rt.objects p = some o → rt.shapes o.shape = some sh →
    ∃ n, rt'.shapes o.shape = some { sh with refCount := n }

theorem Recounted.content (recounted : Recounted rt rt') (heaped : Heaped rt held) (q : Addr) :
    rt'.content q = rt.content q := by
  refine content_congr (congrFun recounted.objects q) (fun o mine sh there => ?_) heaped
  obtain ⟨n, there'⟩ := recounted.kept q o sh mine there
  exact ⟨_, there', rfl, rfl⟩

theorem Recounted.canonical (recounted : Recounted rt rt') (canonical : Canonical rt) : Canonical rt' := by
  intro s t sh' sh'' mine mine' hashed hashed' proto prop
  obtain ⟨sh, n, old, rfl⟩ := recounted.shapes s sh' mine
  obtain ⟨sh₂, n₂, old₂, rfl⟩ := recounted.shapes t sh'' mine'
  exact canonical s t sh sh₂ old old₂ hashed hashed' proto prop

theorem setShape_self (rt : ShapeRuntime α) (s : Addr) (x : Option Shape) : (rt.setShape s x).shapes s = x :=
  Function.update_self ..

theorem setShape_of_ne (rt : ShapeRuntime α) (x : Option Shape) (other : t ≠ s) :
    (rt.setShape s x).shapes t = rt.shapes t := Function.update_of_ne other _ _

theorem tabled_write {x : Option Shape} (tabled : Tabled rt filed)
    (keeps : filed s → ∃ sh sh', rt.shapes s = some sh ∧ x = some sh' ∧ sh'.hash = sh.hash) :
    Tabled (rt.setShape s x) filed := by
  refine tabled_same tabled rfl rfl rfl rfl (Nat.le_refl _) (fun t sh among mine => ?_) fun _ => Iff.rfl
  by_cases here : t = s
  · subst here
    obtain ⟨sh₁, sh', old, rfl, same⟩ := keeps among
    rw [mine, Option.some.injEq] at old
    subst old
    exact ⟨sh', setShape_self .., same⟩
  · exact ⟨sh, (setShape_of_ne _ _ here).trans mine, rfl⟩

theorem tabled_iff {filed' : Addr → Prop} (tabled : Tabled rt filed) (same : ∀ t, filed' t ↔ filed t) :
    Tabled rt filed' :=
  tabled_same tabled rfl rfl rfl rfl (Nat.le_refl _) (fun _ sh _ mine => ⟨sh, mine, rfl⟩) same

theorem tabled_recount (tabled : Tabled rt rt.HashedAt) (there : rt.shapes s = some sh) (n : Nat) :
    Tabled (rt.setShape s (some { sh with refCount := n }))
      (rt.setShape s (some { sh with refCount := n })).HashedAt := by
  refine tabled_iff (tabled_write tabled fun _ => ⟨sh, _, there, rfl, rfl⟩) fun t => ?_
  by_cases here : t = s
  · subst here
    simp [ShapeRuntime.HashedAt, setShape_self, there]
  · simp [ShapeRuntime.HashedAt, setShape_of_ne _ _ here]

theorem recounted_write (there : rt.shapes s = some sh) (n : Nat) :
    Recounted rt (rt.setShape s (some { sh with refCount := n })) := by
  refine ⟨rfl, rfl, ?_, ?_⟩
  · intro t sh' mine
    by_cases here : t = s
    · subst here
      rw [setShape_self, Option.some.injEq] at mine
      exact ⟨sh, _, there, mine.symm⟩
    · rw [setShape_of_ne _ _ here] at mine
      exact ⟨sh', sh'.refCount, mine, rfl⟩
  · intro p o sh' _ mine
    by_cases here : o.shape = s
    · rw [here] at mine ⊢
      rw [there, Option.some.injEq] at mine
      subst mine
      exact ⟨_, setShape_self ..⟩
    · exact ⟨sh'.refCount, (setShape_of_ne _ _ here).trans mine⟩

theorem dup_spec (heaped : Heaped rt none) (tabled : Tabled rt rt.HashedAt) (there : rt.shapes s = some sh)
    (hashed : sh.isHashed = true) :
    ∃ rt', jsDupShape rt s = some rt' ∧ Heaped rt' (some s) ∧ Tabled rt' rt'.HashedAt ∧ Recounted rt rt' ∧
      rt'.shapes s = some { sh with refCount := sh.refCount + 1 } := by
  refine ⟨rt.setShape s (some { sh with refCount := sh.refCount + 1 }), ?_, ?_, tabled_recount tabled there _,
    recounted_write there _, setShape_self ..⟩
  · rw [jsDupShape, there]
    rfl
  · refine heaped_recount heaped there (Nat.succ_pos _) (fun plain => ?_) ?_ fun t other => ?_
    · rw [hashed] at plain
      cases plain
    · rw [heldAt_self, ← heaped.counted s sh there, heldAt_none]
    · rw [heldAt_of_ne (Ne.symm other), heldAt_none]

def Frees (rt : ShapeRuntime α) (s : Addr) : Prop :=
  ∃ rt', jsFreeShape rt s = some rt' ∧ Heaped rt' none ∧ Tabled rt' rt'.HashedAt ∧ Recounted rt rt' ∧
    ∀ t, t ≠ s → rt'.shapes t = rt.shapes t

theorem free_last (heaped : Heaped rt (some s)) (tabled : Tabled rt rt.HashedAt) (there : rt.shapes s = some sh)
    (last : sh.refCount ≤ 1) : Frees rt s := by
  have count := heaped.counted s sh there
  rw [heldAt_self] at count
  have unused : rt.usersOf s = ∅ := (Set.ncard_eq_zero (users_finite heaped s)).1 (by omega)
  have apart : ∀ p o, rt.objects p = some o → o.shape ≠ s := by
    intro p o mine same
    have user : p ∈ rt.usersOf s := ⟨o, mine, same⟩
    rw [unused] at user
    exact user
  obtain ⟨rt₁, counted⟩ : ∃ rt₁, rt₁ = rt.setShape s (some { sh with refCount := sh.refCount - 1 }) :=
    ⟨_, rfl⟩
  have tabled₁ : Tabled rt₁ rt.HashedAt := by
    rw [counted]
    exact tabled_write tabled fun _ => ⟨sh, _, there, rfl, rfl⟩
  obtain ⟨table, n, unlinks, tabled₂⟩ := tabled_unlinkIf tabled₁ (hashedAt_iff there)
  have here₁ : rt₁.shapes s = some { sh with refCount := sh.refCount - 1 } := by
    rw [counted]
    exact setShape_self ..
  have others : ∀ t, t ≠ s → ((rt₁.withTable table n).setShape s none).shapes t = rt.shapes t := by
    intro t other
    rw [setShape_of_ne _ _ other]
    show rt₁.shapes t = rt.shapes t
    rw [counted]
    exact setShape_of_ne _ _ other
  have remaining : ∀ t sh', ((rt₁.withTable table n).setShape s none).shapes t = some sh' →
      t ≠ s ∧ rt.shapes t = some sh' := by
    intro t sh' mine
    by_cases here : t = s
    · subst here
      rw [setShape_self] at mine
      cases mine
    · exact ⟨here, (others t here).symm.trans mine⟩
  have sameObjects : ((rt₁.withTable table n).setShape s none).objects = rt.objects := by
    rw [counted]
    rfl
  have sameTop : ((rt₁.withTable table n).setShape s none).heapTop = rt.heapTop := by
    rw [counted]
    rfl
  have sameUsers : ∀ t, ((rt₁.withTable table n).setShape s none).usersOf t = rt.usersOf t := by
    intro t
    rw [ShapeRuntime.usersOf, sameObjects, ShapeRuntime.usersOf]
  refine ⟨(rt₁.withTable table n).setShape s none, ?_, ?_, ?_, ⟨sameObjects, sameTop, ?_, ?_⟩, others⟩
  · rw [jsFreeShape, there, Option.bind_eq_bind, Option.bind_some, ← counted]
    simp only [if_pos last]
    rw [jsFreeShape0, here₁, Option.bind_eq_bind, Option.bind_some, guard, if_pos (by simp; omega)]
    simp only [unlinks, Option.pure_def, Option.bind_eq_bind, Option.bind_some]
  · refine ⟨?_, ?_, ?_, ?_, ?_, ?_, ?_, ?_⟩
    · intro t sh' mine
      rw [sameTop]
      exact heaped.below t sh' (remaining t sh' mine).2
    · intro p o mine
      rw [sameObjects] at mine
      rw [sameTop]
      exact heaped.inside p o mine
    · exact fun t sh' mine => heaped.valid t sh' (remaining t sh' mine).2
    · exact fun t sh' mine => heaped.sealed t sh' (remaining t sh' mine).2
    · intro t sh' mine
      obtain ⟨other, old⟩ := remaining t sh' mine
      rw [sameUsers, heldAt_none, ← heaped.counted t sh' old, heldAt_of_ne (Ne.symm other)]
    · exact fun t sh' mine => heaped.used t sh' (remaining t sh' mine).2
    · exact fun t sh' mine => heaped.alone t sh' (remaining t sh' mine).2
    · intro p o mine
      rw [sameObjects] at mine
      obtain ⟨sh', old, size⟩ := heaped.fits p o mine
      exact ⟨sh', (others _ (apart p o mine)).trans old, size⟩
  · refine tabled_iff (tabled_write tabled₂ fun gone => absurd rfl gone.1) fun t => ?_
    constructor
    · rintro ⟨sh', mine, hashed⟩
      obtain ⟨other, old⟩ := remaining t sh' mine
      exact ⟨other, sh', old, hashed⟩
    · rintro ⟨other, sh', old, hashed⟩
      exact ⟨sh', (others t other).trans old, hashed⟩
  · intro t sh' mine
    exact ⟨sh', sh'.refCount, (remaining t sh' mine).2, rfl⟩
  · intro p o sh' mine old
    exact ⟨sh'.refCount, (others _ (apart p o mine)).trans old⟩

theorem free_spec (heaped : Heaped rt (some s)) (tabled : Tabled rt rt.HashedAt)
    (there : rt.shapes s = some sh) : Frees rt s := by
  have count := heaped.counted s sh there
  rw [heldAt_self] at count
  by_cases last : sh.refCount ≤ 1
  · exact free_last heaped tabled there last
  · refine ⟨rt.setShape s (some { sh with refCount := sh.refCount - 1 }), ?_, ?_, tabled_recount tabled there _,
      recounted_write there _, fun t other => setShape_of_ne _ _ other⟩
    · rw [jsFreeShape, there, Option.bind_eq_bind, Option.bind_some]
      simp only [if_neg last]
    · refine heaped_recount heaped there (by omega) (fun plain => ?_) ?_ fun t other => ?_
      · have one := heaped.alone s sh there plain
        omega
      · rw [heldAt_none]
        omega
      · rw [heldAt_of_ne (Ne.symm other), heldAt_none]

theorem fresh_shape (heaped : Heaped rt held) : rt.shapes rt.heapTop = none := by
  cases there : rt.shapes rt.heapTop with
  | none => rfl
  | some sh => exact absurd (heaped.below _ sh there) (Nat.lt_irrefl _)

theorem fresh_object (heaped : Heaped rt held) : rt.objects rt.heapTop = none := by
  cases there : rt.objects rt.heapTop with
  | none => rfl
  | some o => exact absurd (heaped.inside _ o there) (Nat.lt_irrefl _)

theorem users_fresh (heaped : Heaped rt held) (absent : rt.shapes s = none) : rt.usersOf s = ∅ := by
  refine Set.eq_empty_iff_forall_notMem.2 ?_
  rintro p ⟨o, mine, rfl⟩
  obtain ⟨sh, there, -⟩ := heaped.fits p o mine
  rw [absent] at there
  cases there

theorem allocShape_shapes (rt : ShapeRuntime α) (sh : Shape) (t : Addr) :
    (rt.allocShape sh).2.shapes t = if t = rt.heapTop then some sh else rt.shapes t := by
  by_cases here : t = rt.heapTop
  · subst here
    simp [ShapeRuntime.allocShape, ShapeRuntime.setShape]
  · simp [ShapeRuntime.allocShape, ShapeRuntime.setShape, here]

theorem heaped_alloc (heaped : Heaped rt none) (valid : sh.Valid) (sealed : sh.Sealed) (one : sh.refCount = 1) :
    Heaped (rt.allocShape sh).2 (some rt.heapTop) := by
  have shapes : ∀ t sh', (rt.allocShape sh).2.shapes t = some sh' →
      (t = rt.heapTop ∧ sh' = sh) ∨ (t ≠ rt.heapTop ∧ rt.shapes t = some sh') := by
    intro t sh' mine
    rw [allocShape_shapes] at mine
    by_cases here : t = rt.heapTop
    · rw [if_pos here, Option.some.injEq] at mine
      exact .inl ⟨here, mine.symm⟩
    · rw [if_neg here] at mine
      exact .inr ⟨here, mine⟩
  have users : ∀ t, (rt.allocShape sh).2.usersOf t = rt.usersOf t := fun _ => rfl
  refine ⟨?_, ?_, ?_, ?_, ?_, ?_, ?_, ?_⟩
  · intro t sh' mine
    rcases shapes t sh' mine with ⟨rfl, -⟩ | ⟨-, old⟩
    · exact Nat.lt_succ_self _
    · exact Nat.lt_succ_of_lt (heaped.below t sh' old)
  · exact fun p o mine => Nat.lt_succ_of_lt (heaped.inside p o mine)
  · intro t sh' mine
    rcases shapes t sh' mine with ⟨-, rfl⟩ | ⟨-, old⟩
    · exact valid
    · exact heaped.valid t sh' old
  · intro t sh' mine
    rcases shapes t sh' mine with ⟨-, rfl⟩ | ⟨-, old⟩
    · exact sealed
    · exact heaped.sealed t sh' old
  · intro t sh' mine
    rw [users]
    rcases shapes t sh' mine with ⟨rfl, rfl⟩ | ⟨other, old⟩
    · rw [users_fresh heaped (fresh_shape heaped), Set.ncard_empty, heldAt_self, one]
    · rw [heldAt_of_ne (Ne.symm other), ← heaped.counted t sh' old, heldAt_none]
  · intro t sh' mine
    rcases shapes t sh' mine with ⟨-, rfl⟩ | ⟨-, old⟩
    · omega
    · exact heaped.used t sh' old
  · intro t sh' mine plain
    rcases shapes t sh' mine with ⟨-, rfl⟩ | ⟨-, old⟩
    · exact one
    · exact heaped.alone t sh' old plain
  · intro p o mine
    obtain ⟨sh', old, size⟩ := heaped.fits p o mine
    refine ⟨sh', ?_, size⟩
    rw [allocShape_shapes, if_neg (Nat.ne_of_lt (heaped.below _ sh' old)), old]

theorem content_alloc (heaped : Heaped rt held) (sh : Shape) (q : Addr) :
    (rt.allocShape sh).2.content q = rt.content q := by
  refine content_congr rfl (fun o mine sh' there => ⟨sh', ?_, rfl, rfl⟩) heaped
  rw [allocShape_shapes, if_neg (Nat.ne_of_lt (heaped.below _ sh' there)), there]

theorem tabled_alloc (heaped : Heaped rt held) {filed : Addr → Prop} (tabled : Tabled rt filed) (sh : Shape) :
    Tabled (rt.allocShape sh).2 filed := by
  refine tabled_same tabled rfl rfl rfl rfl (Nat.le_succ _) (fun t sh' _ there => ⟨sh', ?_, rfl⟩)
    fun _ => Iff.rfl
  rw [allocShape_shapes, if_neg (Nat.ne_of_lt (heaped.below _ sh' there)), there]

theorem heaped_give (heaped : Heaped rt (some s)) (mine : rt.objects p = some o) (there : rt.shapes s = some sh)
    (other : o.shape ≠ s) (size : values.length = sh.propSize) :
    Heaped (rt.setObject p (some { o with shape := s, prop := values })) (some o.shape) := by
  have objects : ∀ q, (rt.setObject p (some { o with shape := s, prop := values })).objects q =
      if q = p then some { o with shape := s, prop := values } else rt.objects q := by
    intro q
    by_cases here : q = p
    · subst here
      simp [ShapeRuntime.setObject]
    · simp [ShapeRuntime.setObject, here]
  refine ⟨heaped.below, ?_, heaped.valid, heaped.sealed, ?_, heaped.used, heaped.alone, ?_⟩
  · intro q o' mine'
    rw [objects] at mine'
    by_cases here : q = p
    · rw [here]
      exact heaped.inside p o mine
    · rw [if_neg here] at mine'
      exact heaped.inside q o' mine'
  · intro t sh' there'
    have count := heaped.counted t sh' there'
    by_cases mineNow : t = s
    · subst mineNow
      have joined := users_join heaped objects fun user => other (shape_of_user mine user)
      show (ShapeRuntime.usersOf _ t).ncard + _ = _
      rw [joined, heldAt_of_ne other, ← count, heldAt_self]
    · by_cases mineBefore : t = o.shape
      · subst mineBefore
        have left := users_leave (t := o.shape) objects (user_of mine) (by
          rintro o' given same
          rw [Option.some.injEq] at given
          rw [← given] at same
          exact other same.symm)
        have positive : 0 < (rt.usersOf o.shape).ncard :=
          (Set.ncard_pos (users_finite heaped _)).2 ⟨p, user_of mine⟩
        show (ShapeRuntime.usersOf _ o.shape).ncard + _ = _
        rw [left, heldAt_self, ← count, heldAt_of_ne (Ne.symm other)]
        omega
      · have same := users_same (t := t) objects (fun user => mineBefore (shape_of_user mine user).symm) (by
          rintro o' given equal
          rw [Option.some.injEq] at given
          rw [← given] at equal
          exact mineNow equal.symm)
        show (ShapeRuntime.usersOf _ t).ncard + _ = _
        rw [same, ← count, heldAt_of_ne (Ne.symm mineBefore), heldAt_of_ne (Ne.symm mineNow)]
  · intro q o' mine'
    rw [objects] at mine'
    by_cases here : q = p
    · rw [if_pos here, Option.some.injEq] at mine'
      subst mine'
      exact ⟨sh, there, size⟩
    · rw [if_neg here] at mine'
      exact heaped.fits q o' mine'

theorem allocObject_objects (rt : ShapeRuntime α) (o : JSObject α) (q : Addr) :
    (rt.allocObject o).2.objects q = if q = rt.heapTop then some o else rt.objects q := by
  by_cases here : q = rt.heapTop
  · subst here
    simp [ShapeRuntime.allocObject, ShapeRuntime.setObject]
  · simp [ShapeRuntime.allocObject, ShapeRuntime.setObject, here]

theorem heaped_newObject (heaped : Heaped rt (some o.shape)) (there : rt.shapes o.shape = some sh)
    (size : o.prop.length = sh.propSize) : Heaped (rt.allocObject o).2 none := by
  have objects := allocObject_objects rt o
  have absent : ∀ t, rt.heapTop ∉ rt.usersOf t := by
    rintro t ⟨o', mine, -⟩
    rw [fresh_object heaped] at mine
    cases mine
  refine ⟨?_, ?_, heaped.valid, heaped.sealed, ?_, heaped.used, heaped.alone, ?_⟩
  · exact fun t sh' mine => Nat.lt_succ_of_lt (heaped.below t sh' mine)
  · intro q o' mine
    rw [objects] at mine
    by_cases here : q = rt.heapTop
    · rw [here]
      exact Nat.lt_succ_self _
    · rw [if_neg here] at mine
      exact Nat.lt_succ_of_lt (heaped.inside q o' mine)
  · intro t sh' there'
    have count := heaped.counted t sh' there'
    rw [heldAt_none]
    by_cases mineNow : o.shape = t
    · subst mineNow
      have joined := users_join heaped objects (absent _)
      rw [heldAt_self] at count
      rw [joined]
      exact count
    · have same := users_same (t := t) objects (absent t) (by
        rintro o' given equal
        rw [Option.some.injEq] at given
        rw [← given] at equal
        exact mineNow equal)
      rw [heldAt_of_ne mineNow] at count
      rw [same]
      exact count
  · intro q o' mine
    rw [objects] at mine
    by_cases here : q = rt.heapTop
    · rw [if_pos here, Option.some.injEq] at mine
      subst mine
      exact ⟨sh, there, size⟩
    · rw [if_neg here] at mine
      exact heaped.fits q o' mine

theorem heaped_remove (heaped : Heaped rt none) (mine : rt.objects p = some o) :
    Heaped (rt.setObject p none) (some o.shape) := by
  have objects : ∀ q, (rt.setObject p none).objects q = if q = p then none else rt.objects q := by
    intro q
    by_cases here : q = p
    · subst here
      simp [ShapeRuntime.setObject]
    · simp [ShapeRuntime.setObject, here]
  refine ⟨heaped.below, ?_, heaped.valid, heaped.sealed, ?_, heaped.used, heaped.alone, ?_⟩
  · intro q o' mine'
    rw [objects] at mine'
    by_cases here : q = p
    · rw [if_pos here] at mine'
      cases mine'
    · rw [if_neg here] at mine'
      exact heaped.inside q o' mine'
  · intro t sh' there'
    have count := heaped.counted t sh' there'
    rw [heldAt_none] at count
    by_cases mineBefore : o.shape = t
    · subst mineBefore
      have left := users_leave (t := o.shape) objects (user_of mine) (by
        rintro o' given
        cases given)
      have positive : 0 < (rt.usersOf o.shape).ncard :=
        (Set.ncard_pos (users_finite heaped _)).2 ⟨p, user_of mine⟩
      rw [left, heldAt_self]
      omega
    · have same := users_same (t := t) objects (fun user => mineBefore (shape_of_user mine user)) (by
        rintro o' given
        cases given)
      rw [same, heldAt_of_ne mineBefore]
      exact count
  · intro q o' mine'
    rw [objects] at mine'
    by_cases here : q = p
    · rw [if_pos here] at mine'
      cases mine'
    · rw [if_neg here] at mine'
      exact heaped.fits q o' mine'

structure Replaced (rt rt' : ShapeRuntime α) (p s : Addr) (sh' : Shape) (o' : JSObject α) : Prop where
  shapes : ∀ t, rt'.shapes t = if t = o'.shape then some sh' else if t = s then none else rt.shapes t
  objects : ∀ q, rt'.objects q = if q = p then some o' else rt.objects q
  top : rt.heapTop ≤ rt'.heapTop
  inside : o'.shape < rt'.heapTop
  place : o'.shape = s ∨ rt.shapes o'.shape = none

theorem sole_user (heaped : Heaped rt none) (mine : rt.objects p = some o) (there : rt.shapes o.shape = some sh)
    (one : sh.refCount = 1) : rt.usersOf o.shape = {p} := by
  have count := heaped.counted _ sh there
  rw [heldAt_none, one] at count
  obtain ⟨q, only⟩ := Set.ncard_eq_one.1 count
  have member := user_of mine
  rw [only, Set.mem_singleton_iff] at member
  rw [only, member]

theorem Replaced.elsewhere (replaced : Replaced rt rt' p o.shape sh' o') (heaped : Heaped rt none)
    (mine : rt.objects p = some o) (there : rt.shapes o.shape = some sh) (one : sh.refCount = 1)
    (other : q ≠ p) {x : JSObject α} (his : rt.objects q = some x) :
    x.shape ≠ o'.shape ∧ x.shape ≠ o.shape := by
  have apart : x.shape ≠ o.shape := by
    intro same
    have user : q ∈ rt.usersOf o.shape := ⟨x, his, same⟩
    rw [sole_user heaped mine there one, Set.mem_singleton_iff] at user
    exact other user
  refine ⟨fun same => ?_, apart⟩
  rcases replaced.place with equal | absent
  · exact apart (same.trans equal)
  · obtain ⟨sh₂, there₂, -⟩ := heaped.fits q x his
    rw [same, absent] at there₂
    cases there₂

theorem Replaced.heaped (replaced : Replaced rt rt' p o.shape sh' o') (heaped : Heaped rt none)
    (mine : rt.objects p = some o) (there : rt.shapes o.shape = some sh) (one : sh.refCount = 1)
    (valid : sh'.Valid) (sealed : sh'.Sealed) (one' : sh'.refCount = 1) (size : o'.prop.length = sh'.propSize) :
    Heaped rt' none := by
  have shapes : ∀ t sh₂, rt'.shapes t = some sh₂ →
      (t = o'.shape ∧ sh₂ = sh') ∨ (t ≠ o'.shape ∧ t ≠ o.shape ∧ rt.shapes t = some sh₂) := by
    intro t sh₂ his
    rw [replaced.shapes] at his
    by_cases here : t = o'.shape
    · rw [if_pos here, Option.some.injEq] at his
      exact .inl ⟨here, his.symm⟩
    · rw [if_neg here] at his
      by_cases here' : t = o.shape
      · rw [if_pos here'] at his
        cases his
      · rw [if_neg here'] at his
        exact .inr ⟨here, here', his⟩
  refine ⟨?_, ?_, ?_, ?_, ?_, ?_, ?_, ?_⟩
  · intro t sh₂ his
    rcases shapes t sh₂ his with ⟨rfl, -⟩ | ⟨-, -, old⟩
    · exact replaced.inside
    · exact Nat.lt_of_lt_of_le (heaped.below t sh₂ old) replaced.top
  · intro q x his
    rw [replaced.objects] at his
    by_cases here : q = p
    · rw [here]
      exact Nat.lt_of_lt_of_le (heaped.inside p o mine) replaced.top
    · rw [if_neg here] at his
      exact Nat.lt_of_lt_of_le (heaped.inside q x his) replaced.top
  · intro t sh₂ his
    rcases shapes t sh₂ his with ⟨-, rfl⟩ | ⟨-, -, old⟩
    · exact valid
    · exact heaped.valid t sh₂ old
  · intro t sh₂ his
    rcases shapes t sh₂ his with ⟨-, rfl⟩ | ⟨-, -, old⟩
    · exact sealed
    · exact heaped.sealed t sh₂ old
  · intro t sh₂ his
    rw [heldAt_none]
    rcases shapes t sh₂ his with ⟨rfl, rfl⟩ | ⟨here, here', old⟩
    · have only : rt'.usersOf o'.shape = {p} := by
        refine Set.ext fun q => ?_
        rw [users_write replaced.objects, Set.mem_singleton_iff]
        constructor
        · rintro (⟨same, -⟩ | ⟨other, x, his', same⟩)
          · exact same
          · exact absurd same (replaced.elsewhere heaped mine there one other his').1
        · intro same
          exact .inl ⟨same, o', rfl, rfl⟩
      rw [only, Set.ncard_singleton, one']
    · have same := users_same (t := t) replaced.objects (fun user => here' (shape_of_user mine user).symm) (by
        rintro x given equal
        rw [Option.some.injEq] at given
        rw [← given] at equal
        exact here equal.symm)
      rw [same, ← heaped.counted t sh₂ old, heldAt_none]
  · intro t sh₂ his
    rcases shapes t sh₂ his with ⟨-, rfl⟩ | ⟨-, -, old⟩
    · omega
    · exact heaped.used t sh₂ old
  · intro t sh₂ his plain
    rcases shapes t sh₂ his with ⟨-, rfl⟩ | ⟨-, -, old⟩
    · exact one'
    · exact heaped.alone t sh₂ old plain
  · intro q x his
    rw [replaced.objects] at his
    by_cases here : q = p
    · rw [if_pos here, Option.some.injEq] at his
      subst his
      exact ⟨sh', by rw [replaced.shapes, if_pos rfl], size⟩
    · rw [if_neg here] at his
      obtain ⟨other, other'⟩ := replaced.elsewhere heaped mine there one here his
      obtain ⟨sh₂, old, size'⟩ := heaped.fits q x his
      exact ⟨sh₂, by rw [replaced.shapes, if_neg other, if_neg other', old], size'⟩

theorem Replaced.content (replaced : Replaced rt rt' p o.shape sh' o') (heaped : Heaped rt none)
    (mine : rt.objects p = some o) (there : rt.shapes o.shape = some sh) (one : sh.refCount = 1)
    (q : Addr) : rt'.content q = if q = p then some (contentOf sh' o') else rt.content q := by
  by_cases here : q = p
  · subst here
    rw [if_pos rfl, content_eq (by rw [replaced.objects, if_pos rfl]) (by rw [replaced.shapes, if_pos rfl])]
  · rw [if_neg here]
    refine content_congr (by rw [replaced.objects, if_neg here]) (fun x his sh₂ old => ?_) heaped
    obtain ⟨other, other'⟩ := replaced.elsewhere heaped mine there one here his
    exact ⟨sh₂, by rw [replaced.shapes, if_neg other, if_neg other', old], rfl, rfl⟩

theorem canonical_of_added (s' : Addr) (sh' : Shape) (canonical : CanonicalBut rt s)
    (shapes : ∀ t sh₂, rt'.shapes t = some sh₂ → (t = s' ∧ sh₂ = sh') ∨ (t ≠ s ∧ rt.shapes t = some sh₂))
    (new : sh'.isHashed = true → ∀ t sh₂, t ≠ s → rt.shapes t = some sh₂ → sh₂.isHashed = true →
      ¬ (sh₂.proto = sh'.proto ∧ sh₂.prop = sh'.prop)) : Canonical rt' := by
  intro t u sh₁ sh₂ his hers hashed hashed' proto prop
  rcases shapes t sh₁ his with ⟨rfl, rfl⟩ | ⟨other, old⟩
  · rcases shapes u sh₂ hers with ⟨rfl, -⟩ | ⟨other', old'⟩
    · rfl
    · exact absurd ⟨proto.symm, prop.symm⟩ (new hashed u sh₂ other' old' hashed')
  · rcases shapes u sh₂ hers with ⟨rfl, rfl⟩ | ⟨other', old'⟩
    · exact absurd ⟨proto, prop⟩ (new hashed' t sh₁ other old hashed)
    · exact canonical t u sh₁ sh₂ other other' old old' hashed hashed' proto prop

theorem Replaced.canonical (replaced : Replaced rt rt' p s sh' o') (canonical : CanonicalBut rt s)
    (new : sh'.isHashed = true → ∀ t sh₂, t ≠ s → rt.shapes t = some sh₂ → sh₂.isHashed = true →
      ¬ (sh₂.proto = sh'.proto ∧ sh₂.prop = sh'.prop)) : Canonical rt' := by
  refine canonical_of_added o'.shape sh' canonical (fun t sh₂ his => ?_) new
  rw [replaced.shapes] at his
  by_cases here : t = o'.shape
  · rw [if_pos here, Option.some.injEq] at his
    exact .inl ⟨here, his.symm⟩
  · rw [if_neg here] at his
    by_cases here' : t = s
    · rw [if_pos here'] at his
      cases his
    · rw [if_neg here'] at his
      exact .inr ⟨here', his⟩

theorem Canonical.but (canonical : Canonical rt) (x : Addr) : CanonicalBut rt x :=
  fun s t sh sh' _ _ => canonical s t sh sh'

end Counts

end QuickJSBridge.Shapes
