import Mathlib
import QuickJSBridge.AtomTable
import QuickJSBridge.HashChains

/- The shapes of quickjs.c: the names and flags of an object's properties are in a shape that
   objects with the same properties share, with a hash table from names to places; the hashed
   shapes are in a table of the runtime, where an object that gets a property looks for the
   shape it comes to. Objects have no rules of their own here, and the counts of objects, atoms
   and values that shapes and properties hold are left to the models of these. No result stands
   for a failed assertion, a read of what is freed or was never written, an int that overflows
   or a place that does not fit its field; only a search along a chain passes over a shape that
   is freed, and its bucket is 0, which `Filed` excludes. -/
namespace QuickJSBridge.Shapes
open HashChains
open Atoms (JSAtom atomIsTaggedInt)

abbrev Addr := Nat

/-- `JSShapeProperty` without its `hash_next`; a deleted property has the atom 0. -/
structure ShapeProperty where
  atom : JSAtom
  flags : Nat
  deriving DecidableEq

/-- `JSShape`. Its links are the hash table in front of it and the `hash_next` of its
    properties, where place i stands for i + 1; the shapes' own links are in the runtime. -/
structure Shape where
  refCount : Nat
  isHashed : Bool
  hasSmallArrayIndex : Bool
  hash : Nat
  propHashMask : Nat
  propSize : Nat
  deletedPropCount : Nat
  prop : List ShapeProperty
  index : Links Nat
  proto : Option Addr

/-- `JSObject`, with room for as many values as its shape has for properties. -/
structure JSObject (α : Type) where
  shape : Addr
  extensible : Bool
  /-- None where nothing has been written yet. -/
  prop : List (Option α)

structure ShapeRuntime (α : Type) where
  shapes : Addr → Option Shape
  objects : Addr → Option (JSObject α)
  /-- The address of the next allocation. -/
  heapTop : Addr
  shapeHashBits : Nat
  shapeHashSize : Nat
  shapeHashCount : Nat
  /-- `shape_hash`, and the `shape_hash_next` of the shapes in it. -/
  table : Links Addr

def propInitialSize : Nat := 2
def propInitialHashSize : Nat := 4

def propConfigurable (flags : Nat) : Bool := flags.testBit 0

/-- `shape_hash`, in the arithmetic of 32 bits. -/
def shapeHash (h val : Nat) : Nat := (h + val) * 0x9e370001 % 2 ^ 32

/-- `get_shape_hash`. -/
def getShapeHash (h hashBits : Nat) : Nat := h >>> (32 - hashBits)

/-- `shape_initial_hash`, where pointers have 64 bits. -/
def shapeInitialHash (proto : Option Addr) : Nat :=
  shapeHash (shapeHash 1 (proto.getD 0 % 2 ^ 32)) (proto.getD 0 / 2 ^ 32 % 2 ^ 32)

def atomAt (prop : List ShapeProperty) (i : Nat) : JSAtom := (prop[i]?.map ShapeProperty.atom).getD 0

def Shape.hasAtom (sh : Shape) (atom : JSAtom) (i : Nat) : Bool := atomAt sh.prop i = atom

/-- `js_realloc` of an object's values. -/
def reallocProp {α : Type} (prop : List (Option α)) (newSize : Nat) : List (Option α) :=
  prop.take newSize ++ List.replicate (newSize - prop.length) none

/-- `init_shape_hash`. -/
def initShapeHash (α : Type) : ShapeRuntime α :=
  ⟨fun _ => none, fun _ => none, 1, 4, 16, 0, ⟨fun _ => none, fun _ => none⟩⟩

variable {α : Type}

namespace ShapeRuntime

def setShape (rt : ShapeRuntime α) (s : Addr) (sh : Option Shape) : ShapeRuntime α :=
  { rt with shapes := Function.update rt.shapes s sh }

def setObject (rt : ShapeRuntime α) (p : Addr) (o : Option (JSObject α)) : ShapeRuntime α :=
  { rt with objects := Function.update rt.objects p o }

/-- `js_malloc` of a shape. -/
def allocShape (rt : ShapeRuntime α) (sh : Shape) : Addr × ShapeRuntime α :=
  (rt.heapTop, { rt.setShape rt.heapTop (some sh) with heapTop := rt.heapTop + 1 })

def allocObject (rt : ShapeRuntime α) (o : JSObject α) : Addr × ShapeRuntime α :=
  (rt.heapTop, { rt.setObject rt.heapTop (some o) with heapTop := rt.heapTop + 1 })

/-- The chain on which a shape is. -/
def bucketOf (rt : ShapeRuntime α) (bits : Nat) (s : Addr) : Nat :=
  getShapeHash (((rt.shapes s).map Shape.hash).getD 0) bits

end ShapeRuntime

/-- `resize_shape_hash`. -/
def resizeShapeHash (rt : ShapeRuntime α) (newShapeHashBits : Nat) : Option (ShapeRuntime α) := do
  guard (newShapeHashBits < 31)
  let table ← rehash (rt.bucketOf newShapeHashBits) rt.shapeHashSize rt.heapTop rt.table
  some { rt with
    shapeHashBits := newShapeHashBits
    shapeHashSize := 2 ^ newShapeHashBits
    table := table }

/-- `js_shape_hash_link`. -/
def jsShapeHashLink (rt : ShapeRuntime α) (s : Addr) : Option (ShapeRuntime α) := do
  let sh ← rt.shapes s
  some { rt with
    table := rt.table.push (getShapeHash sh.hash rt.shapeHashBits) s
    shapeHashCount := rt.shapeHashCount + 1 }

/-- `js_shape_hash_unlink`. -/
def jsShapeHashUnlink (rt : ShapeRuntime α) (s : Addr) : Option (ShapeRuntime α) := do
  let sh ← rt.shapes s
  let (_, table) ← rt.table.unlink (fun t => t = s) rt.heapTop (getShapeHash sh.hash rt.shapeHashBits)
  some { rt with
    table := table
    shapeHashCount := rt.shapeHashCount - 1 }

def unlinkIfHashed (rt : ShapeRuntime α) (s : Addr) (isHashed : Bool) : Option (ShapeRuntime α) :=
  if isHashed then jsShapeHashUnlink rt s else some rt

def resizeForShape (rt : ShapeRuntime α) : Option (ShapeRuntime α) :=
  if rt.shapeHashSize < 2 * (rt.shapeHashCount + 1) then resizeShapeHash rt (rt.shapeHashBits + 1)
  else some rt

/-- `js_new_shape2`. -/
def jsNewShape2 (rt : ShapeRuntime α) (proto : Option Addr) (hashSize propSize : Nat) :
    Option (Addr × ShapeRuntime α) := do
  let rt ← resizeForShape rt
  let (s, rt) := rt.allocShape
    ⟨1, true, false, shapeInitialHash proto, hashSize - 1, propSize, 0, [],
     ⟨fun _ => none, fun _ => none⟩, proto⟩
  let rt ← jsShapeHashLink rt s
  some (s, rt)

/-- `js_new_shape`. -/
def jsNewShape (rt : ShapeRuntime α) (proto : Option Addr) : Option (Addr × ShapeRuntime α) :=
  jsNewShape2 rt proto propInitialHashSize propInitialSize

/-- `js_clone_shape`. -/
def jsCloneShape (rt : ShapeRuntime α) (sh1 : Addr) : Option (Addr × ShapeRuntime α) := do
  let sh ← rt.shapes sh1
  some (rt.allocShape { sh with refCount := 1, isHashed := false })

/-- `js_dup_shape`. -/
def jsDupShape (rt : ShapeRuntime α) (s : Addr) : Option (ShapeRuntime α) := do
  let sh ← rt.shapes s
  some (rt.setShape s (some { sh with refCount := sh.refCount + 1 }))

/-- `js_free_shape0`. -/
def jsFreeShape0 (rt : ShapeRuntime α) (s : Addr) : Option (ShapeRuntime α) := do
  let sh ← rt.shapes s
  guard (sh.refCount = 0)
  let rt ← unlinkIfHashed rt s sh.isHashed
  some (rt.setShape s none)

/-- `js_free_shape`. -/
def jsFreeShape (rt : ShapeRuntime α) (s : Addr) : Option (ShapeRuntime α) := do
  let sh ← rt.shapes s
  let rt := rt.setShape s (some { sh with refCount := sh.refCount - 1 })
  if sh.refCount ≤ 1 then jsFreeShape0 rt s else some rt

/-- The loop of `resize_properties` that doubles the size of a hash table. -/
def doubleHashSize (newSize : Nat) : Nat → Nat → Option Nat
  | 0, hashSize => if hashSize < newSize then none else some hashSize
  | fuel + 1, hashSize =>
    if hashSize < newSize then doubleHashSize newSize fuel (2 * hashSize) else some hashSize

/-- The loop of `compact_properties` that halves it. -/
def halveHashSize (newSize : Nat) : Nat → Nat → Option Nat
  | 0, hashSize => if newSize ≤ hashSize / 2 then none else some hashSize
  | fuel + 1, hashSize =>
    if newSize ≤ hashSize / 2 then halveHashSize newSize fuel (hashSize / 2) else some hashSize

def fillIndex (prop : List ShapeProperty) (newHashMask : Nat) (index : Links Nat) : Links Nat :=
  (List.range prop.length).foldl
    (fun index i => if atomAt prop i ≠ 0 then index.push (atomAt prop i &&& newHashMask) i else index)
    ⟨fun _ => none, index.next⟩

def resizeValues (rt : ShapeRuntime α) (newSize : Nat) : Option Addr → Option (ShapeRuntime α)
  | none => some rt
  | some p => do
    let o ← rt.objects p
    some (rt.setObject p (some { o with prop := reallocProp o.prop newSize }))

/-- The shape that `resize_properties` makes of one. -/
def Shape.resized (sh : Shape) (newSize newHashSize : Nat) : Shape :=
  { sh with
    propSize := newSize
    propHashMask := newHashSize - 1
    index := if newHashSize ≠ sh.propHashMask + 1 then fillIndex sh.prop (newHashSize - 1) sh.index
      else sh.index }

/-- `resize_properties`, with a `js_realloc` that moves. -/
def resizeProperties (rt : ShapeRuntime α) (s : Addr) (p : Option Addr) (count : Nat) :
    Option (Addr × ShapeRuntime α) := do
  let sh ← rt.shapes s
  guard (sh.propSize * 3 < 2 ^ 31)
  let newSize := max count (sh.propSize * 3 / 2)
  let rt ← resizeValues rt newSize p
  let newHashSize ← doubleHashSize newSize newSize (sh.propHashMask + 1)
  let (s', rt) := rt.allocShape (sh.resized newSize newHashSize)
  some (s', rt.setShape s none)

/-- What the loop of `compact_properties` has kept so far. -/
structure Compacted (α : Type) where
  kept : List ShapeProperty
  index : Links Nat
  values : List (Option α)

/-- The loop of `compact_properties` from place i on. -/
def compactLoop (newHashMask : Nat) : List ShapeProperty → Nat → Compacted α → Compacted α
  | [], _, c => c
  | pr :: rest, i, c =>
    compactLoop newHashMask rest (i + 1)
      (if pr.atom ≠ 0 then
        ⟨c.kept ++ [pr], c.index.push (pr.atom &&& newHashMask) c.kept.length,
          c.values.set c.kept.length (c.values[i]?).join⟩
      else c)

/-- `compact_properties`. -/
def compactProperties (rt : ShapeRuntime α) (p : Addr) : Option (ShapeRuntime α) := do
  let o ← rt.objects p
  let sh ← rt.shapes o.shape
  guard (sh.isHashed = false)
  let newSize := max propInitialSize (sh.prop.length - sh.deletedPropCount)
  guard (newSize ≤ sh.propSize)
  let newHashSize ← halveHashSize newSize (sh.propHashMask + 1) (sh.propHashMask + 1)
  let c := compactLoop (newHashSize - 1) sh.prop 0 ⟨[], ⟨fun _ => none, fun _ => none⟩, o.prop⟩
  guard (c.kept.length = sh.prop.length - sh.deletedPropCount)
  let (s', rt) := rt.allocShape { sh with
    propHashMask := newHashSize - 1
    propSize := newSize
    deletedPropCount := 0
    prop := c.kept
    index := c.index }
  some ((rt.setShape o.shape none).setObject p
    (some { o with shape := s', prop := reallocProp c.values newSize }))

/-- Where there is no room for another property, `add_shape_property` makes some. -/
def resizeForProperty (rt : ShapeRuntime α) (s : Addr) (p : Option Addr) (sh : Shape) :
    Option (Addr × ShapeRuntime α) :=
  if sh.propSize ≤ sh.prop.length then resizeProperties rt s p (sh.prop.length + 1) else some (s, rt)

/-- How `add_shape_property` puts a shape that was in the table back, under its new hash. -/
def relinkIfHashed (rt : ShapeRuntime α) (s : Addr) (newShapeHash : Nat) : Option (ShapeRuntime α) := do
  let sh ← rt.shapes s
  if sh.isHashed then jsShapeHashLink (rt.setShape s (some { sh with hash := newShapeHash })) s
  else some rt

def Shape.extended (sh : Shape) (atom : JSAtom) (propFlags : Nat) : Shape :=
  { sh with
    prop := sh.prop ++ [⟨atom, propFlags⟩]
    hasSmallArrayIndex := sh.hasSmallArrayIndex || atomIsTaggedInt atom
    index := sh.index.push (atom &&& sh.propHashMask) sh.prop.length }

/-- `add_shape_property`, which returns where the shape is now. -/
def addShapeProperty (rt : ShapeRuntime α) (s : Addr) (p : Option Addr) (atom : JSAtom)
    (propFlags : Nat) : Option (Addr × ShapeRuntime α) := do
  let sh ← rt.shapes s
  let rt ← unlinkIfHashed rt s sh.isHashed
  let newShapeHash := shapeHash (shapeHash sh.hash atom) propFlags
  let (s, rt) ← resizeForProperty rt s p sh
  let rt ← relinkIfHashed rt s newShapeHash
  let sh ← rt.shapes s
  guard (sh.prop.length < 2 ^ 26)
  some (s, rt.setShape s (some (sh.extended atom propFlags)))

/-- `find_hashed_shape_proto`. -/
def findHashedShapeProto (rt : ShapeRuntime α) (proto : Option Addr) : Option (Option Addr) :=
  let h := shapeInitialHash proto
  walk rt.table.next (fun s => (rt.shapes s).any fun sh1 =>
      sh1.hash = h && sh1.proto = proto && sh1.prop.length = 0)
    rt.heapTop (rt.table.head (getShapeHash h rt.shapeHashBits))

/-- `find_hashed_shape_prop`. -/
def findHashedShapeProp (rt : ShapeRuntime α) (sh : Shape) (atom : JSAtom) (propFlags : Nat) :
    Option (Option Addr) :=
  let h := shapeHash (shapeHash sh.hash atom) propFlags
  let n := sh.prop.length
  walk rt.table.next (fun s => (rt.shapes s).any fun sh1 =>
      sh1.hash = h && sh1.proto = sh.proto && sh1.prop.length = n + 1 &&
        (List.range n).all (fun i => sh1.prop[i]? = sh.prop[i]?) &&
        sh1.prop[n]? = some ⟨atom, propFlags⟩)
    rt.heapTop (rt.table.head (getShapeHash h rt.shapeHashBits))

/-- `find_own_property`: the place of a property in the shape and in the object. -/
def findOwnProperty (rt : ShapeRuntime α) (p : Addr) (atom : JSAtom) : Option (Option Nat) := do
  let o ← rt.objects p
  let sh ← rt.shapes o.shape
  walk sh.index.next (sh.hasAtom atom) sh.prop.length (sh.index.head (atom &&& sh.propHashMask))

/-- `JS_NewObjectFromShape`, for the class of plain objects. -/
def jsNewObjectFromShape (rt : ShapeRuntime α) (s : Addr) : Option (Addr × ShapeRuntime α) := do
  let sh ← rt.shapes s
  some (rt.allocObject ⟨s, true, List.replicate sh.propSize none⟩)

/-- Where `JS_NewObjectProtoClass` gets the shape from. -/
def shapeForProto (rt : ShapeRuntime α) (proto : Option Addr) : Option (Addr × ShapeRuntime α) := do
  let found ← findHashedShapeProto rt proto
  match found with
  | some s => do
    let rt ← jsDupShape rt s
    some (s, rt)
  | none => jsNewShape rt proto

/-- `JS_NewObjectProtoClass`. -/
def jsNewObjectProtoClass (rt : ShapeRuntime α) (proto : Option Addr) :
    Option (Addr × ShapeRuntime α) := do
  let (s, rt) ← shapeForProto rt proto
  jsNewObjectFromShape rt s

def exchangeShape (rt : ShapeRuntime α) (p : Addr) (o : JSObject α) (s : Addr)
    (prop : List (Option α)) : Option (ShapeRuntime α) :=
  jsFreeShape (rt.setObject p (some { o with shape := s, prop := prop })) o.shape

/-- `js_shape_prepare_update`; a place in the shape stays the same. -/
def jsShapePrepareUpdate (rt : ShapeRuntime α) (p : Addr) : Option (ShapeRuntime α) := do
  let o ← rt.objects p
  let sh ← rt.shapes o.shape
  if sh.isHashed then
    if sh.refCount ≠ 1 then
      let (s, rt) ← jsCloneShape rt o.shape
      exchangeShape rt p o s o.prop
    else
      let rt ← jsShapeHashUnlink rt o.shape
      some (rt.setShape o.shape (some { sh with isHashed := false }))
  else some rt

/-- How `add_property` comes to a shape that no other object has. -/
def cloneIfShared (rt : ShapeRuntime α) (p : Addr) (o : JSObject α) (sh : Shape) :
    Option (ShapeRuntime α) :=
  if sh.isHashed ∧ sh.refCount ≠ 1 then do
    let (s, rt) ← jsCloneShape rt o.shape
    let rt ← jsShapeHashLink (rt.setShape s (some { sh with refCount := 1 })) s
    exchangeShape rt p o s o.prop
  else some rt

/-- Where `add_property` looks for a shape that has the property already. -/
def existingShape (rt : ShapeRuntime α) (sh : Shape) (prop : JSAtom) (propFlags : Nat) :
    Option (Option Addr) :=
  if sh.isHashed then findHashedShapeProp rt sh prop propFlags else some none

/-- `add_property`, which returns the place of the new property. -/
def addProperty (rt : ShapeRuntime α) (p : Addr) (prop : JSAtom) (propFlags : Nat) :
    Option (Nat × ShapeRuntime α) := do
  let o ← rt.objects p
  let sh ← rt.shapes o.shape
  let found ← existingShape rt sh prop propFlags
  match found with
  | some s => do
    let newSh ← rt.shapes s
    let rt ← jsDupShape rt s
    let rt ← exchangeShape rt p o s
      (if newSh.propSize ≠ sh.propSize then reallocProp o.prop newSh.propSize else o.prop)
    some (newSh.prop.length - 1, rt)
  | none => do
    let rt ← cloneIfShared rt p o sh
    let o ← rt.objects p
    let sh ← rt.shapes o.shape
    guard (sh.refCount = 1)
    let (s, rt) ← addShapeProperty rt o.shape (some p) prop propFlags
    let o ← rt.objects p
    some (sh.prop.length, rt.setObject p (some { o with shape := s }))

def setValue (rt : ShapeRuntime α) (p : Addr) (i : Nat) (value : α) : Option (ShapeRuntime α) := do
  let o ← rt.objects p
  guard (i < o.prop.length)
  some (rt.setObject p (some { o with prop := o.prop.set i (some value) }))

def compactIfSparse (rt : ShapeRuntime α) (p : Addr) (sh : Shape) : Option (ShapeRuntime α) :=
  if 8 ≤ sh.deletedPropCount ∧ sh.prop.length / 2 ≤ sh.deletedPropCount then compactProperties rt p
  else some rt

/-- How `delete_property` takes out the property that it has found. -/
def removeProperty (undefined : α) (rt : ShapeRuntime α) (p : Addr) (atom : JSAtom) (i : Nat) :
    Option (ShapeRuntime α) := do
  let rt ← jsShapePrepareUpdate rt p
  let o ← rt.objects p
  let sh ← rt.shapes o.shape
  let (_, index) ← sh.index.unlink (sh.hasAtom atom) sh.prop.length (atom &&& sh.propHashMask)
  guard ((o.prop[i]?).join.isSome)
  let sh := { sh with
    index := index
    deletedPropCount := sh.deletedPropCount + 1
    prop := sh.prop.set i ⟨0, 0⟩ }
  compactIfSparse ((rt.setShape o.shape (some sh)).setObject p
    (some { o with prop := o.prop.set i (some undefined) })) p sh

/-- `delete_property`. -/
def deleteProperty (undefined : α) (rt : ShapeRuntime α) (p : Addr) (atom : JSAtom) :
    Option (Bool × ShapeRuntime α) := do
  let o ← rt.objects p
  let sh ← rt.shapes o.shape
  let found ← findOwnProperty rt p atom
  match found with
  | none => some (true, rt)
  | some i => do
    let pr ← sh.prop[i]?
    if propConfigurable pr.flags then do
      let rt ← removeProperty undefined rt p atom i
      some (true, rt)
    else some (false, rt)

/-- `js_update_property_flags`, for the property at a place. -/
def jsUpdatePropertyFlags (rt : ShapeRuntime α) (p : Addr) (i flags : Nat) : Option (ShapeRuntime α) := do
  let o ← rt.objects p
  let sh ← rt.shapes o.shape
  let pr ← sh.prop[i]?
  if flags ≠ pr.flags then do
    let rt ← jsShapePrepareUpdate rt p
    let o ← rt.objects p
    let sh ← rt.shapes o.shape
    some (rt.setShape o.shape (some { sh with prop := sh.prop.set i { pr with flags := flags } }))
  else some rt

/-- The loop of `JS_SetPrototypeInternal`: whether an object is on a chain of prototypes. -/
def onPrototypeChain (rt : ShapeRuntime α) (p : Addr) : Nat → Option Addr → Option Bool
  | _, none => some false
  | 0, some _ => none
  | fuel + 1, some p1 =>
    if p1 = p then some true
    else do
      let o ← rt.objects p1
      let sh ← rt.shapes o.shape
      onPrototypeChain rt p fuel sh.proto

/-- `JS_SetPrototypeInternal` without `throw_flag`, from where a prototype is to be set. -/
def jsSetPrototype (rt : ShapeRuntime α) (p : Addr) (proto : Option Addr) :
    Option (Bool × ShapeRuntime α) := do
  let o ← rt.objects p
  let sh ← rt.shapes o.shape
  if sh.proto = proto then some (true, rt)
  else if o.extensible = false then some (false, rt)
  else do
    let circular ← onPrototypeChain rt p rt.heapTop proto
    if circular then some (false, rt)
    else do
      let rt ← jsShapePrepareUpdate rt p
      let o ← rt.objects p
      let sh ← rt.shapes o.shape
      some (true, rt.setShape o.shape (some { sh with proto := proto }))

/-- `JS_PreventExtensions`. -/
def jsPreventExtensions (rt : ShapeRuntime α) (p : Addr) : Option (ShapeRuntime α) := do
  let o ← rt.objects p
  some (rt.setObject p (some { o with extensible := false }))

/-- `free_object`, which frees the values of all properties and the shape. -/
def freeObject (rt : ShapeRuntime α) (p : Addr) : Option (ShapeRuntime α) := do
  let o ← rt.objects p
  let sh ← rt.shapes o.shape
  guard ((List.range sh.prop.length).all fun i => (o.prop[i]?).join.isSome)
  jsFreeShape (rt.setObject p none) o.shape

end QuickJSBridge.Shapes
