import Mathlib
import QuickJSBridge.EngineText
import QuickJSBridge.HashChains

/- The atoms of quickjs.c: strings and symbols that are property names, interned in a table of
   slots with a list of the free ones, and found by a hash table whose chains run through the
   strings themselves. No result stands for a failed assertion, a read of freed memory or an
   int that overflows; only a chain just ends at a slot that is free, which `Filed` excludes.
   Atom 0 is `JS_ATOM_NULL`. -/
namespace QuickJSBridge.Atoms
open HashChains

abbrev Addr := Nat
abbrev JSAtom := Nat

/-- `JS_ATOM_TYPE_x`; a private name is stored as a symbol with another hash. -/
inductive AtomType where
  | string
  | globalSymbol
  | symbol
  | privateName
  deriving DecidableEq

def AtomType.number : AtomType → Nat
  | .string => 1
  | .globalSymbol => 2
  | .symbol => 3
  | .privateName => 4

/-- `JSString`, which is also `JSAtomStruct`. -/
structure StringStruct where
  refCount : Nat
  text : JSString
  hash : Nat
  /-- None where the field is 0. -/
  atomType : Option AtomType
  hashNext : Nat

/-- An entry of `atom_array`: a pointer, or the tagged index of the next free entry. -/
inductive AtomSlot where
  | atom (p : Addr)
  | free (next : Nat)
  deriving DecidableEq

structure AtomRuntime where
  strings : Addr → Option StringStruct
  /-- The address of the next allocation. -/
  heapTop : Addr
  atomHashSize : Nat
  atomCount : Nat
  atomSize : Nat
  atomCountResize : Nat
  atomHash : Nat → Nat
  atomArray : Nat → AtomSlot
  atomFreeIndex : Nat

def atomTagInt : Nat := 2 ^ 31
def atomMaxInt : Nat := atomTagInt - 1
def atomMax : Nat := 2 ^ 30 - 1
def atomHashMask : Nat := 2 ^ 30 - 1

/-- `__JS_AtomIsConst`, where the predefined atoms end at `JS_ATOM_END`. -/
def atomIsConst (atomEnd : Nat) (v : JSAtom) : Bool := v < atomEnd || atomTagInt ≤ v
def atomIsTaggedInt (v : JSAtom) : Bool := atomTagInt ≤ v
def atomFromUInt32 (v : Nat) : JSAtom := v ||| atomTagInt
def atomToUInt32 (atom : JSAtom) : Nat := atom % atomTagInt

/-- The digit that `is_num` finds. -/
def isNum (u : UInt16) : Option Nat :=
  if 48 ≤ u.toNat ∧ u.toNat ≤ 57 then some (u.toNat - 48) else none

/-- `is_num_string`. -/
def isNumString (p : JSString) : Option Nat :=
  if p.units.length = 0 ∨ 10 < p.units.length then none
  else
    match p.units with
    | [] => none
    | c :: rest => do
      let first ← isNum c
      if first = 0 then if p.units.length = 1 then some 0 else none
      else rest.foldlM (fun n c => do
        let d ← isNum c
        if n * 10 + d < 2 ^ 32 then some (n * 10 + d) else none) first

/-- The digits `%u` prints. -/
def decimalUnits (n : Nat) : List UInt16 :=
  if n = 0 then [48] else (Nat.digits 10 n).reverse.map fun d => .ofNat (48 + d)

/-- `hash_string`, in the arithmetic of 32 bits. -/
def hashString (str : JSString) (h : Nat) : Nat :=
  str.units.foldl (fun h c => (h * 263 + c.toNat) % 2 ^ 32) h

def link (v : Nat) : Option Nat := if v = 0 then none else some v

namespace AtomRuntime

def set (rt : AtomRuntime) (p : Addr) (s : Option StringStruct) : AtomRuntime :=
  { rt with strings := Function.update rt.strings p s }

/-- `js_malloc_rt`. -/
def alloc (rt : AtomRuntime) (s : StringStruct) : Addr × AtomRuntime :=
  (rt.heapTop, { rt.set rt.heapTop (some s) with heapTop := rt.heapTop + 1 })

def atom? (rt : AtomRuntime) (i : Nat) : Option StringStruct :=
  match rt.atomArray i with
  | .atom p => rt.strings p
  | .free _ => none

def next (rt : AtomRuntime) (i : Nat) : Option Nat := (rt.atom? i).bind fun s => link s.hashNext

def freeNext (rt : AtomRuntime) (i : Nat) : Option Nat :=
  match rt.atomArray i with
  | .atom _ => none
  | .free n => link n

def links (rt : AtomRuntime) : Links Nat := ⟨fun b => link (rt.atomHash b), rt.next⟩

/-- The chain on which an atom is. -/
def bucketOf (rt : AtomRuntime) (i : Nat) : Nat :=
  ((rt.atom? i).map StringStruct.hash).getD 0 &&& (rt.atomHashSize - 1)

/-- Write the `hash_next` of the atom of a slot. -/
def setHashNext (rt : AtomRuntime) (i n : Nat) : AtomRuntime :=
  match rt.atomArray i with
  | .atom p => rt.set p ((rt.strings p).map fun s => { s with hashNext := n })
  | .free _ => rt

end AtomRuntime

/-- The inner loop of `JS_ResizeAtomHash`, over one chain of the old table. -/
def resizeChain (newHashMask : Nat) : Nat → Nat → AtomRuntime × (Nat → Nat) →
    Option (AtomRuntime × (Nat → Nat))
  | 0, h, state => if h = 0 then some state else none
  | fuel + 1, h, (rt, newHash) =>
    if h = 0 then some (rt, newHash)
    else do
      let p ← rt.atom? h
      let hashNext1 := p.hashNext
      let j := p.hash &&& newHashMask
      resizeChain newHashMask fuel hashNext1
        (rt.setHashNext h (newHash j), Function.update newHash j h)

/-- `JS_ResizeAtomHash`. -/
def jsResizeAtomHash (rt : AtomRuntime) (newHashSize : Nat) : Option AtomRuntime := do
  guard (newHashSize &&& (newHashSize - 1) = 0)
  let (rt', newHash) ← (List.range rt.atomHashSize).foldlM
    (fun state i => resizeChain (newHashSize - 1) rt.atomSize (rt.atomHash i) state)
    (rt, fun _ => 0)
  some { rt' with
    atomHash := newHash
    atomHashSize := newHashSize
    atomCountResize := newHashSize * 2 }

/-- `js_get_atom_index`. -/
def jsGetAtomIndex (rt : AtomRuntime) (p : Addr) : Option Nat := do
  let s ← rt.strings p
  if s.atomType = some .symbol then some s.hashNext
  else
    let found ← walk rt.next (fun i => rt.atomArray i = .atom p) rt.atomSize
      (link (rt.atomHash (s.hash &&& (rt.atomHashSize - 1))))
    found

/-- How `JS_FreeAtomStruct` learns the index of an atom and takes it off its chain. -/
def unlinkAtom (rt : AtomRuntime) (p : Addr) (s : StringStruct) : Option (Nat × AtomRuntime) :=
  if s.atomType = some .symbol then some (s.hashNext, rt)
  else do
    let h0 := s.hash &&& (rt.atomHashSize - 1)
    let i ← link (rt.atomHash h0)
    if rt.atomArray i = .atom p then
      some (i, { rt with atomHash := Function.update rt.atomHash h0 s.hashNext })
    else
      let (i0, i) ← predecessor rt.next (fun i => rt.atomArray i = .atom p) rt.atomSize i
      some (i, rt.setHashNext i0 s.hashNext)

/-- `JS_FreeAtomStruct`. -/
def jsFreeAtomStruct (rt : AtomRuntime) (p : Addr) : Option AtomRuntime := do
  let s ← rt.strings p
  let (i, rt) ← unlinkAtom rt p s
  guard (0 < rt.atomCount)
  some { rt.set p none with
    atomArray := Function.update rt.atomArray i (.free rt.atomFreeIndex)
    atomFreeIndex := i
    atomCount := rt.atomCount - 1 }

/-- `js_free_string`, and `JS_FreeValueRT` on a string or a symbol. -/
def jsFreeString (rt : AtomRuntime) (p : Addr) : Option AtomRuntime := do
  let s ← rt.strings p
  let rt := rt.set p (some { s with refCount := s.refCount - 1 })
  if s.refCount ≤ 1 then
    if s.atomType = none then some (rt.set p none) else jsFreeAtomStruct rt p
  else some rt

def freeSlots (start newSize : Nat) (atomArray : Nat → AtomSlot) (i : Nat) : AtomSlot :=
  if start ≤ i ∧ i < newSize then .free (if i = newSize - 1 then 0 else i + 1) else atomArray i

/-- How `__JS_NewAtom` makes room where no slot is free; without a result of its own where the
    table would get too big. -/
def growAtoms (rt : AtomRuntime) : Option (Option AtomRuntime) := do
  guard (rt.atomSize * 3 < 2 ^ 31)
  let newSize := max 211 (rt.atomSize * 3 / 2)
  if atomMax < newSize then some none
  else
    let (start, rt) :=
      if rt.atomSize = 0 then
        -- the entry of JS_ATOM_NULL
        let (p, rt) := rt.alloc ⟨1, .ofUnits [], 0, some .symbol, 0⟩
        (1, { rt with
          atomArray := Function.update rt.atomArray 0 (.atom p)
          atomCount := rt.atomCount + 1 })
      else (rt.atomSize, rt)
    some (some { rt with
      atomSize := newSize
      atomFreeIndex := start
      atomArray := freeSlots start newSize rt.atomArray })

/-- Where `__JS_NewAtom` finds the string of a new atom: the string itself if it is no atom, or
    a copy, or an empty wide string where there is none. -/
def atomString (rt : AtomRuntime) : Option Addr → Option (Addr × AtomRuntime)
  | some str => do
    let s ← rt.strings str
    if s.atomType = none then some (str, rt)
    else
      let (p, rt) := rt.alloc ⟨1, s.text, 0, none, 0⟩
      let rt ← jsFreeString rt str
      some (p, rt)
  | none => some (rt.alloc ⟨1, ⟨true, [], by simp⟩, 0, none, 0⟩)

/-- The end of `__JS_NewAtom`, which takes a free slot. -/
def registerAtom (rt : AtomRuntime) (p : Addr) (h : Nat) (atomType : AtomType) :
    Option (JSAtom × AtomRuntime) := do
  let i := rt.atomFreeIndex
  let AtomSlot.free n := rt.atomArray i | none
  let s ← rt.strings p
  let h1 := h &&& (rt.atomHashSize - 1)
  let hashed : Bool := atomType ≠ .symbol
  let rt := { rt with
    atomFreeIndex := n
    atomArray := Function.update rt.atomArray i (.atom p)
    strings := (rt.set p (some { s with
      hash := h
      atomType := some atomType
      hashNext := if hashed then rt.atomHash h1 else i })).strings
    atomCount := rt.atomCount + 1
    atomHash := if hashed then Function.update rt.atomHash h1 i else rt.atomHash }
  if hashed ∧ rt.atomCountResize ≤ rt.atomCount then do
    let rt ← jsResizeAtomHash rt (rt.atomHashSize * 2)
    some (i, rt)
  else some (i, rt)

def AtomRuntime.isAtom (rt : AtomRuntime) (h : Nat) (atomType : AtomType) (units : List UInt16)
    (i : Nat) : Bool :=
  match rt.atom? i with
  | some p => p.hash = h && p.atomType = some atomType && p.text.units = units
  | none => false

def roomForAtom (rt : AtomRuntime) : Option (Option AtomRuntime) :=
  if rt.atomFreeIndex = 0 then growAtoms rt else some (some rt)

/-- `__JS_NewAtom` from where no atom was found. -/
def addAtom (rt : AtomRuntime) (str : Option Addr) (h : Nat) (atomType : AtomType) :
    Option (JSAtom × AtomRuntime) := do
  let grown ← roomForAtom rt
  match grown with
  | some rt =>
    let (p, rt) ← atomString rt str
    registerAtom rt p h atomType
  | none =>
    match str with
    | some str => do
      let rt ← jsFreeString rt str
      some (0, rt)
    | none => some (0, rt)

/-- `__JS_NewAtom` for the types that are hashed. -/
def internAtom (atomEnd : Nat) (rt : AtomRuntime) (str : Addr) (atomType : AtomType) :
    Option (JSAtom × AtomRuntime) := do
  let s ← rt.strings str
  if s.atomType = some atomType then
    let i ← jsGetAtomIndex rt str
    if atomIsConst atomEnd i then
      some (i, rt.set str (some { s with refCount := s.refCount - 1 }))
    else some (i, rt)
  else
    let h := hashString s.text atomType.number &&& atomHashMask
    let found ← walk rt.next (rt.isAtom h atomType s.text.units) rt.atomSize
      (link (rt.atomHash (h &&& (rt.atomHashSize - 1))))
    match found with
    | some i =>
      let AtomSlot.atom p := rt.atomArray i | none
      let a ← rt.strings p
      let rt := if atomIsConst atomEnd i then rt
        else rt.set p (some { a with refCount := a.refCount + 1 })
      let rt ← jsFreeString rt str
      some (i, rt)
    | none => addAtom rt (some str) h atomType

/-- `__JS_NewAtom`. -/
def jsNewAtom (atomEnd : Nat) (rt : AtomRuntime) (str : Option Addr) (atomType : AtomType) :
    Option (JSAtom × AtomRuntime) :=
  match atomType with
  | .symbol => addAtom rt str 0 .symbol
  | .privateName => addAtom rt str 1 .symbol
  | atomType => do
    let str ← str
    internAtom atomEnd rt str atomType

/-- `JS_NewAtomStr`. -/
def jsNewAtomStr (atomEnd : Nat) (rt : AtomRuntime) (p : Addr) : Option (JSAtom × AtomRuntime) := do
  let s ← rt.strings p
  match isNumString s.text with
  | some n =>
    if n ≤ atomMaxInt then do
      let rt ← jsFreeString rt p
      some (atomFromUInt32 n, rt)
    else jsNewAtom atomEnd rt (some p) .string
  | none => jsNewAtom atomEnd rt (some p) .string

/-- `js_alloc_string_rt`, filled in. -/
def newString (rt : AtomRuntime) (text : JSString) : Addr × AtomRuntime :=
  rt.alloc ⟨1, text, 0, none, 0⟩

/-- `JS_DupAtom`. -/
def jsDupAtom (atomEnd : Nat) (rt : AtomRuntime) (v : JSAtom) : Option AtomRuntime :=
  if atomIsConst atomEnd v then some rt
  else do
    let AtomSlot.atom p := rt.atomArray v | none
    let s ← rt.strings p
    some (rt.set p (some { s with refCount := s.refCount + 1 }))

/-- The bytes of a C string as the units of a narrow string. -/
def byteUnits (str : List UInt8) : List UInt16 := str.map fun b => .ofNat b.toNat

/-- `__JS_FindAtom`, which compares the bytes of a C string with those of narrow strings. -/
def jsFindAtom (atomEnd : Nat) (rt : AtomRuntime) (str : List UInt8) :
    Option (JSAtom × AtomRuntime) := do
  let h := (byteUnits str).foldl (fun h c => (h * 263 + c.toNat) % 2 ^ 32) AtomType.string.number &&&
    atomHashMask
  let found ← walk rt.next (fun i => rt.isAtom h .string (byteUnits str) i &&
      ((rt.atom? i).map fun p => !p.text.isWide).getD false) rt.atomSize
    (link (rt.atomHash (h &&& (rt.atomHashSize - 1))))
  match found with
  | some i => do
    let rt ← jsDupAtom atomEnd rt i
    some (i, rt)
  | none => some (0, rt)

def isDigit (b : UInt8) : Bool := 48 ≤ b.toNat && b.toNat ≤ 57

/-- The first lines of `JS_NewAtomLen`, which leave a text that starts with a digit alone. -/
def findAtomLen (atomEnd : Nat) (rt : AtomRuntime) (str : List UInt8) :
    Option (JSAtom × AtomRuntime) :=
  if (str.head?.map isDigit).getD false then some (0, rt) else jsFindAtom atomEnd rt str

/-- `JS_NewAtomLen`. -/
def jsNewAtomLen (atomEnd : Nat) (rt : AtomRuntime) (str : List UInt8) :
    Option (JSAtom × AtomRuntime) := do
  let (atom, rt) ← findAtomLen atomEnd rt str
  if atom ≠ 0 then some (atom, rt)
  else
    match newStringLen str with
    | none => some (0, rt)
    | some text =>
      let (p, rt) := newString rt text
      jsNewAtomStr atomEnd rt p

/-- `JS_FreeAtomRT` with `__JS_FreeAtom`. -/
def jsFreeAtom (atomEnd : Nat) (rt : AtomRuntime) (v : JSAtom) : Option AtomRuntime :=
  if atomIsConst atomEnd v then some rt
  else do
    let AtomSlot.atom p := rt.atomArray v | none
    let s ← rt.strings p
    let rt := rt.set p (some { s with refCount := s.refCount - 1 })
    if 1 < s.refCount then some rt else jsFreeAtomStruct rt p

/-- A JS value that is a string, a symbol or a tagged int. -/
inductive KeyValue where
  | string (p : Addr)
  | symbol (p : Addr)
  | int (n : Int)

/-- `JS_NewSymbol`; no value stands for the out of memory error. -/
def jsNewSymbol (atomEnd : Nat) (rt : AtomRuntime) (p : Option Addr) (atomType : AtomType) :
    Option (Option KeyValue × AtomRuntime) := do
  let (atom, rt) ← jsNewAtom atomEnd rt p atomType
  if atom = 0 then some (none, rt)
  else
    let AtomSlot.atom p := rt.atomArray atom | none
    some (some (.symbol p), rt)

/-- `JS_DupValue` on a string or a symbol. -/
def jsDupString (rt : AtomRuntime) (p : Addr) : Option AtomRuntime := do
  let s ← rt.strings p
  some (rt.set p (some { s with refCount := s.refCount + 1 }))

/-- `JS_NewSymbolFromAtom`. -/
def jsNewSymbolFromAtom (atomEnd : Nat) (rt : AtomRuntime) (descr : JSAtom) (atomType : AtomType) :
    Option (Option KeyValue × AtomRuntime) := do
  guard (!atomIsTaggedInt descr)
  guard (descr < rt.atomSize)
  let AtomSlot.atom p := rt.atomArray descr | none
  let rt ← jsDupString rt p
  jsNewSymbol atomEnd rt (some p) atomType

/-- `__JS_AtomToValue`, where the empty string is the predefined atom `emptyString`. -/
def jsAtomToValue (emptyString : JSAtom) (rt : AtomRuntime) (atom : JSAtom) (forceString : Bool) :
    Option (KeyValue × AtomRuntime) :=
  if atomIsTaggedInt atom then
    let (p, rt) := newString rt (.ofUnits (decimalUnits (atomToUInt32 atom)))
    some (.string p, rt)
  else do
    guard (atom < rt.atomSize)
    let AtomSlot.atom p := rt.atomArray atom | none
    let s ← rt.strings p
    if s.atomType = some .string then
      let rt ← jsDupString rt p
      some (.string p, rt)
    else if forceString then
      let AtomSlot.atom p := rt.atomArray
        (if s.text.units.length = 0 ∧ s.text.isWide then emptyString else atom)
        | none
      let rt ← jsDupString rt p
      some (.string p, rt)
    else
      let rt ← jsDupString rt p
      some (.symbol p, rt)

/-- `JS_NewAtomUInt32`. -/
def jsNewAtomUInt32 (atomEnd : Nat) (rt : AtomRuntime) (n : Nat) : Option (JSAtom × AtomRuntime) :=
  if n ≤ atomMaxInt then some (atomFromUInt32 n, rt)
  else
    let (p, rt) := newString rt (.ofUnits (decimalUnits n))
    jsNewAtom atomEnd rt (some p) .string

/-- `JS_ToString` on an int. -/
def intUnits (n : Int) : List UInt16 :=
  if n < 0 then 45 :: decimalUnits n.natAbs else decimalUnits n.natAbs

/-- `JS_ValueToAtom`. -/
def jsValueToAtom (atomEnd : Nat) (rt : AtomRuntime) : KeyValue → Option (JSAtom × AtomRuntime)
  | .int n =>
    if 0 ≤ n then some (atomFromUInt32 n.toNat, rt)
    else
      let (p, rt) := newString rt (.ofUnits (intUnits n))
      jsNewAtomStr atomEnd rt p
  | .symbol p => do
    let i ← jsGetAtomIndex rt p
    let rt ← jsDupAtom atomEnd rt i
    some (i, rt)
  | .string p => do
    let rt ← jsDupString rt p
    jsNewAtomStr atomEnd rt p

/-- `JS_AtomIsArrayIndex`. -/
def jsAtomIsArrayIndex (rt : AtomRuntime) (atom : JSAtom) : Option (Option Nat) :=
  if atomIsTaggedInt atom then some (some (atomToUInt32 atom))
  else do
    guard (atom < rt.atomSize)
    let s ← rt.atom? atom
    some (if s.atomType = some .string then (isNumString s.text).filter (· ≠ 2 ^ 32 - 1) else none)

/-- `__JS_NewAtomInit`. -/
def jsNewAtomInit (atomEnd : Nat) (rt : AtomRuntime) (text : JSString) (atomType : AtomType) :
    Option (JSAtom × AtomRuntime) :=
  let (p, rt) := newString rt text
  jsNewAtom atomEnd rt (some p) atomType

/-- One turn of the loop of `JS_InitAtoms`. -/
def initAtom (atomEnd : Nat) (rt : AtomRuntime) (entry : JSString × AtomType) : Option AtomRuntime := do
  let (atom, rt) ← jsNewAtomInit atomEnd rt entry.1 entry.2
  if atom = 0 then none else some rt

/-- `JS_InitAtoms`, for a table of predefined atoms. -/
def jsInitAtoms (predefined : List (JSString × AtomType)) : Option AtomRuntime := do
  let rt ← jsResizeAtomHash ⟨fun _ => none, 1, 0, 0, 0, 0, fun _ => 0, fun _ => .free 0, 0⟩ 256
  predefined.foldlM (initAtom (predefined.length + 1)) rt

end QuickJSBridge.Atoms
