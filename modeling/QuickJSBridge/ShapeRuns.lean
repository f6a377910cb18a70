import Mathlib
import QuickJSBridge.ShapeOperations

/- What objects are to those who use them: a list of properties in the order they came, with a
   prototype. Every run of the operations on shapes and objects is a run of operations on such
   lists, one list for each object, in which no sharing is to be seen. The commands are the steps
   that functions such as JS_SetPropertyInternal or JS_DefineProperty take after their own checks:
   whether a property may be written or added is for these to ask. -/
namespace QuickJSBridge.Shapes
open HashChains
open Atoms (JSAtom atomIsTaggedInt)

variable {α : Type}

structure Entry (α : Type) where
  atom : JSAtom
  flags : Nat
  value : α

structure PropertyMap (α : Type) where
  proto : Option Addr
  extensible : Bool
  entries : List (Entry α)

/-- The objects there are, each with properties of its own. -/
abbrev Objects (α : Type) := Addr → Option (PropertyMap α)

def PropertyMap.find (m : PropertyMap α) (atom : JSAtom) : Option (Entry α) :=
  m.entries.find? fun e => e.atom = atom

def PropertyMap.adjust (m : PropertyMap α) (atom : JSAtom) (g : Entry α → Option (Entry α)) : PropertyMap α :=
  { m with entries := m.entries.filterMap fun e => if e.atom = atom then g e else some e }

def PropertyMap.deletable (m : PropertyMap α) (atom : JSAtom) : Bool :=
  (m.find atom).all fun e => propConfigurable e.flags

def protoIn (w : Objects α) (p : Addr) : Option Addr := (w p).bind PropertyMap.proto

def OnChain (w : Objects α) (p : Addr) (proto : Option Addr) : Prop :=
  ∃ is, Chain (protoIn w) proto is ∧ p ∈ is

inductive ObjectCommand (α : Type) where
  | create (proto : Option Addr)
  | add (p : Addr) (atom : JSAtom) (flags : Nat) (value : α)
  | get (p : Addr) (atom : JSAtom)
  | set (p : Addr) (atom : JSAtom) (value : α)
  | setFlags (p : Addr) (atom : JSAtom) (flags : Nat)
  | delete (p : Addr) (atom : JSAtom)
  | setPrototype (p : Addr) (proto : Option Addr)
  | preventExtensions (p : Addr)
  | free (p : Addr)

inductive Reply (α : Type) where
  | object (p : Addr)
  | done
  | flag (b : Bool)
  | property (found : Option (Nat × α))

/-- What a command is to do. -/
inductive Acts : Objects α → ObjectCommand α → Reply α → Objects α → Prop where
  | create {w : Objects α} {p : Addr} {proto : Option Addr} (fresh : w p = none)
      (known : ∀ q, proto = some q → w q ≠ none) :
      Acts w (.create proto) (.object p) (Function.update w p (some ⟨proto, true, []⟩))
  | add {w : Objects α} {p : Addr} {m : PropertyMap α} {atom : JSAtom} {flags : Nat} {value : α}
      (there : w p = some m) (new : m.find atom = none) :
      Acts w (.add p atom flags value) .done
        (Function.update w p (some { m with entries := m.entries ++ [⟨atom, flags, value⟩] }))
  | get {w : Objects α} {p : Addr} {m : PropertyMap α} {atom : JSAtom} (there : w p = some m) :
      Acts w (.get p atom) (.property ((m.find atom).map fun e => (e.flags, e.value))) w
  | set {w : Objects α} {p : Addr} {m : PropertyMap α} {atom : JSAtom} {value : α} (there : w p = some m) :
      Acts w (.set p atom value) (.flag (m.find atom).isSome)
        (Function.update w p (some (m.adjust atom fun e => some { e with value := value })))
  | setFlags {w : Objects α} {p : Addr} {m : PropertyMap α} {atom : JSAtom} {flags : Nat}
      (there : w p = some m) :
      Acts w (.setFlags p atom flags) (.flag (m.find atom).isSome)
        (Function.update w p (some (m.adjust atom fun e => some { e with flags := flags })))
  | delete {w : Objects α} {p : Addr} {m : PropertyMap α} {atom : JSAtom} (there : w p = some m) :
      Acts w (.delete p atom) (.flag (m.deletable atom))
        (Function.update w p (some (if m.deletable atom then m.adjust atom fun _ => none else m)))
  | setPrototype {w : Objects α} {p : Addr} {m : PropertyMap α} {proto : Option Addr} {b : Bool}
      (there : w p = some m) (known : ∀ q, proto = some q → w q ≠ none)
      (allowed : b = true ↔ m.proto = proto ∨ (m.extensible = true ∧ ¬ OnChain w p proto)) :
      Acts w (.setPrototype p proto) (.flag b)
        (Function.update w p (some (if b then { m with proto := proto } else m)))
  | preventExtensions {w : Objects α} {p : Addr} {m : PropertyMap α} (there : w p = some m) :
      Acts w (.preventExtensions p) (.flag true) (Function.update w p (some { m with extensible := false }))
  | free {w : Objects α} {p : Addr} {m : PropertyMap α} (there : w p = some m)
      (unused : ∀ q m, w q = some m → m.proto ≠ some p) :
      Acts w (.free p) .done (Function.update w p none)

inductive ActsAll : Objects α → List (ObjectCommand α × Reply α) → Objects α → Prop where
  | stop {w : Objects α} : ActsAll w [] w
  | step {w w₁ w₂ : Objects α} {log : List (ObjectCommand α × Reply α)} {cmd : ObjectCommand α} {r : Reply α}
      (run : ActsAll w log w₁) (acts : Acts w₁ cmd r w₂) : ActsAll w (log ++ [(cmd, r)]) w₂

structure Rooted (w : Objects α) : Prop where
  known : ∀ p m q, w p = some m → m.proto = some q → w q ≠ none
  ends : ∀ p, ∃ is, Chain (protoIn w) (some p) is

section Abstract
variable {w w' : Objects α} {p q : Addr} {m m' : PropertyMap α} {proto : Option Addr} {is : List Addr}

theorem rooted_none : Rooted (fun _ => none : Objects α) := by
  refine ⟨fun p m q there => ?_, fun p => ⟨[p], .link .stop⟩⟩
  cases there

theorem Rooted.chain_known (rooted : Rooted w) (chain : Chain (protoIn w) proto is)
    (first : ∀ q, proto = some q → w q ≠ none) : ∀ q ∈ is, w q ≠ none := by
  induction chain with
  | stop => intro q member; cases member
  | @link i is rest ih =>
    intro q member
    rcases List.mem_cons.1 member with rfl | later
    · exact first q rfl
    · refine ih (fun r next => ?_) q later
      cases there : w i with
      | none => simp [protoIn, there] at next
      | some m => exact rooted.known i m r there (by simpa [protoIn, there] using next)

theorem rooted_same (rooted : Rooted w) (there : w p = some m) (same : m'.proto = m.proto) :
    Rooted (Function.update w p (some m')) := by
  have protos : protoIn (Function.update w p (some m')) = protoIn w := by
    funext q
    by_cases here : q = p
    · subst here
      simp [protoIn, there, same]
    · simp [protoIn, here]
  refine ⟨fun q m₂ r his proto => ?_, fun q => ?_⟩
  · have before : w r ≠ none := by
      by_cases here : q = p
      · subst here
        rw [Function.update_self, Option.some.injEq] at his
        exact rooted.known q m r there (by rw [← same, his, proto])
      · rw [Function.update_of_ne here] at his
        exact rooted.known q m₂ r his proto
    by_cases here : r = p
    · simp [here]
    · rwa [Function.update_of_ne here]
  · rw [protos]
    exact rooted.ends q

theorem rooted_redirect (rooted : Rooted w) (known : ∀ q, proto = some q → w q ≠ none) (apart : proto ≠ some p)
    (away : ¬ OnChain w p proto) (same : m'.proto = proto) : Rooted (Function.update w p (some m')) := by
  have protos : protoIn (Function.update w p (some m')) = Function.update (protoIn w) p proto := by
    funext q
    by_cases here : q = p
    · subst here
      simp [protoIn, same]
    · simp [protoIn, here]
  obtain ⟨js, rest⟩ : ∃ js, Chain (protoIn w) proto js := by
    cases start : proto with
    | none => exact ⟨[], .stop⟩
    | some q => exact rooted.ends q
  refine ⟨fun q m₂ r his next => ?_, fun q => ?_⟩
  · by_cases here : r = p
    · simp [here]
    · rw [Function.update_of_ne here]
      by_cases mine : q = p
      · subst mine
        rw [Function.update_self, Option.some.injEq] at his
        exact known r (by rw [← same, his, next])
      · rw [Function.update_of_ne mine] at his
        exact rooted.known q m₂ r his next
  · obtain ⟨is, chain⟩ := rooted.ends q
    rw [protos]
    exact chain_redirect chain rest fun member => away ⟨js, rest, member⟩

theorem Acts.rooted {cmd : ObjectCommand α} {r : Reply α} (acts : Acts w cmd r w') (rooted : Rooted w) :
    Rooted w' := by
  cases acts with
  | @create p proto fresh known =>
    have apart : ∀ q m, w q = some m → m.proto ≠ some p := fun q m his back =>
      rooted.known q m p his back fresh
    have away : ¬ OnChain w p proto := by
      rintro ⟨is, chain, member⟩
      exact rooted.chain_known chain known p member fresh
    refine rooted_redirect rooted known (fun back => known p back fresh) away rfl
  | @add p m atom flags value there new => exact rooted_same rooted there rfl
  | get there => exact rooted
  | @set p m atom value there => exact rooted_same rooted there rfl
  | @setFlags p m atom flags there => exact rooted_same rooted there rfl
  | @delete p m atom there =>
    refine rooted_same rooted there ?_
    split
    · rfl
    · rfl
  | @setPrototype p m proto b there known allowed =>
    cases b with
    | false => exact rooted_same rooted there rfl
    | true =>
      rcases allowed.1 rfl with same | ⟨-, away⟩
      · exact rooted_same rooted there same.symm
      · refine rooted_redirect rooted known (fun back => away ?_) away rfl
        obtain ⟨is, chain⟩ := rooted.ends p
        rw [back]
        cases chain with
        | link rest => exact ⟨_, .link rest, List.mem_cons_self⟩
  | @preventExtensions p m there => exact rooted_same rooted there rfl
  | @free p m there unused =>
    have protos : protoIn (Function.update w p none) = Function.update (protoIn w) p none := by
      funext q
      by_cases here : q = p
      · subst here
        simp [protoIn]
      · simp [protoIn, here]
    refine ⟨fun q m₂ r his next => ?_, fun q => ?_⟩
    · by_cases mine : q = p
      · subst mine
        rw [Function.update_self] at his
        cases his
      · rw [Function.update_of_ne mine] at his
        have other : r ≠ p := by
          rintro rfl
          exact unused q m₂ his next
        rw [Function.update_of_ne other]
        exact rooted.known q m₂ r his next
    · obtain ⟨is, chain⟩ := rooted.ends q
      rw [protos]
      exact chain_redirect chain .stop (by simp)

end Abstract

section Meaning

def entryOf (slot : ShapeProperty × Option α) : Option (Entry α) :=
  if slot.1.atom = 0 then none else slot.2.map fun v => ⟨slot.1.atom, slot.1.flags, v⟩

def Content.meaning (c : Content α) : PropertyMap α := ⟨c.proto, c.extensible, c.slots.filterMap entryOf⟩

/-- The objects of a runtime. -/
def ShapeRuntime.view (rt : ShapeRuntime α) : Objects α := fun p => (rt.content p).map Content.meaning

variable {slots : List (ShapeProperty × Option α)} {x y : ShapeProperty × Option α} {e : Entry α} {i : Nat}
  {atom : JSAtom}

theorem entryOf_some (named : x.1.atom ≠ 0) (written : x.2.isSome = true) :
    ∃ v, x.2 = some v ∧ entryOf x = some ⟨x.1.atom, x.1.flags, v⟩ := by
  obtain ⟨v, value⟩ := Option.isSome_iff_exists.1 written
  exact ⟨v, value, by rw [entryOf, if_neg named, value, Option.map_some]⟩

theorem entryOf_atom (entry : entryOf x = some e) : e.atom = x.1.atom ∧ x.1.atom ≠ 0 := by
  rw [entryOf] at entry
  by_cases dead : x.1.atom = 0
  · rw [if_pos dead] at entry
    cases entry
  · rw [if_neg dead] at entry
    obtain ⟨v, -, rfl⟩ := Option.map_eq_some_iff.1 entry
    exact ⟨rfl, dead⟩

theorem filterMap_other (g : Entry α → Option (Entry α)) (other : ∀ x ∈ slots, x.1.atom ≠ atom) :
    (slots.filterMap entryOf).filterMap (fun e => if e.atom = atom then g e else some e) =
      slots.filterMap entryOf := by
  induction slots with
  | nil => rfl
  | cons x slots ih =>
    have tail := ih fun y member => other y (List.mem_cons_of_mem _ member)
    cases entry : entryOf x with
    | none => rw [List.filterMap_cons_none entry, tail]
    | some e =>
      have apart : e.atom ≠ atom := by
        rw [(entryOf_atom entry).1]
        exact other x List.mem_cons_self
      rw [List.filterMap_cons_some entry, List.filterMap_cons, if_neg apart, tail]

theorem filterMap_set (g : Entry α → Option (Entry α)) (slot : slots[i]? = some x)
    (only : ∀ j y, slots[j]? = some y → y.1.atom = x.1.atom → j = i) (entry : entryOf x = some e)
    (change : entryOf y = g e) :
    (slots.set i y).filterMap entryOf =
      (slots.filterMap entryOf).filterMap (fun e => if e.atom = x.1.atom then g e else some e) := by
  induction slots generalizing i with
  | nil => cases slot
  | cons z slots ih =>
    cases i with
    | zero =>
      rw [List.getElem?_cons_zero, Option.some.injEq] at slot
      subst slot
      have others : ∀ y ∈ slots, y.1.atom ≠ z.1.atom := by
        intro y member same
        obtain ⟨j, there⟩ := List.mem_iff_getElem?.1 member
        exact Nat.succ_ne_zero j (only (j + 1) y there same)
      rw [List.set_cons_zero, List.filterMap_cons_some entry, List.filterMap_cons, List.filterMap_cons,
        if_pos (entryOf_atom entry).1, filterMap_other g others, change]
    | succ i =>
      rw [List.getElem?_cons_succ] at slot
      have tail := ih slot fun j y there same => by
        have next := only (j + 1) y there same
        omega
      rw [List.set_cons_succ]
      have apart : z.1.atom ≠ x.1.atom := fun same => Nat.succ_ne_zero i (only 0 z rfl same).symm
      cases mine : entryOf z with
      | none => rw [List.filterMap_cons_none mine, List.filterMap_cons_none mine, tail]
      | some f =>
        have other : f.atom ≠ x.1.atom := by
          rw [(entryOf_atom mine).1]
          exact apart
        rw [List.filterMap_cons_some mine, List.filterMap_cons_some mine, List.filterMap_cons,
          if_neg other, tail]

theorem find_slot (slot : slots[i]? = some x)
    (only : ∀ j y, slots[j]? = some y → y.1.atom = x.1.atom → j = i) (entry : entryOf x = some e) :
    (slots.filterMap entryOf).find? (fun e => e.atom = x.1.atom) = some e := by
  induction slots generalizing i with
  | nil => cases slot
  | cons z slots ih =>
    cases i with
    | zero =>
      rw [List.getElem?_cons_zero, Option.some.injEq] at slot
      subst slot
      rw [List.filterMap_cons_some entry, List.find?_cons_of_pos (by simp [(entryOf_atom entry).1])]
    | succ i =>
      rw [List.getElem?_cons_succ] at slot
      have tail := ih slot fun j y there same => by
        have next := only (j + 1) y there same
        omega
      have apart : z.1.atom ≠ x.1.atom := fun same => Nat.succ_ne_zero i (only 0 z rfl same).symm
      cases mine : entryOf z with
      | none => rw [List.filterMap_cons_none mine, tail]
      | some f =>
        have other : f.atom ≠ x.1.atom := by
          rw [(entryOf_atom mine).1]
          exact apart
        rw [List.filterMap_cons_some mine, List.find?_cons_of_neg (by simpa using other), tail]

theorem find_absent (other : ∀ x ∈ slots, x.1.atom ≠ atom) :
    (slots.filterMap entryOf).find? (fun e => e.atom = atom) = none := by
  rw [List.find?_eq_none]
  intro e member
  obtain ⟨x, inside, entry⟩ := List.mem_filterMap.1 member
  rw [decide_eq_true_eq, (entryOf_atom entry).1]
  exact other x inside

theorem filterMap_live (slots : List (ShapeProperty × Option α)) :
    (slots.filter isLive).filterMap entryOf = slots.filterMap entryOf := by
  induction slots with
  | nil => rfl
  | cons x slots ih =>
    by_cases dead : x.1.atom = 0
    · rw [List.filter_cons_of_neg (by simp [isLive, dead]),
        List.filterMap_cons_none (by rw [entryOf, if_pos dead]), ih]
    · rw [List.filter_cons_of_pos (by simpa [isLive] using dead), List.filterMap_cons, List.filterMap_cons, ih]

end Meaning

def Written (c : Content α) : Prop := ∀ x ∈ c.slots, x.2.isSome = true

structure Good (rt : ShapeRuntime α) : Prop where
  sound : Sound rt
  written : ∀ p c, rt.content p = some c → Written c

def readProperty (rt : ShapeRuntime α) (p : Addr) (i : Nat) : Option (Nat × α) := do
  let o ← rt.objects p
  let sh ← rt.shapes o.shape
  let pr ← sh.prop[i]?
  let value ← (o.prop[i]?).join
  some (pr.flags, value)

/-- The callers of `find_own_property` look for a property before they change it. -/
def withProperty (rt : ShapeRuntime α) (p : Addr) (atom : JSAtom)
    (update : Nat → Option (ShapeRuntime α)) : Option (Reply α × ShapeRuntime α) := do
  let found ← findOwnProperty rt p atom
  match found with
  | some i => (update i).map fun rt => (.flag true, rt)
  | none => some (.flag false, rt)

def lookUp (rt : ShapeRuntime α) (p : Addr) (atom : JSAtom) : Option (Option (Nat × α)) := do
  let found ← findOwnProperty rt p atom
  match found with
  | some i => (readProperty rt p i).map some
  | none => some none

/-- The callers of `add_property` write the value of the new property. -/
def addWithValue (rt : ShapeRuntime α) (p : Addr) (atom : JSAtom) (flags : Nat) (value : α) :
    Option (ShapeRuntime α) :=
  (addProperty rt p atom flags).bind fun r => setValue r.2 p r.1 value

def perform (undefined : α) (rt : ShapeRuntime α) : ObjectCommand α → Option (Reply α × ShapeRuntime α)
  | .create proto => (jsNewObjectProtoClass rt proto).map fun r => (.object r.1, r.2)
  | .add p atom flags value => (addWithValue rt p atom flags value).map fun rt => (.done, rt)
  | .get p atom => (lookUp rt p atom).map fun found => (.property found, rt)
  | .set p atom value => withProperty rt p atom fun i => setValue rt p i value
  | .setFlags p atom flags => withProperty rt p atom fun i => jsUpdatePropertyFlags rt p i flags
  | .delete p atom => (deleteProperty undefined rt p atom).map fun r => (.flag r.1, r.2)
  | .setPrototype p proto => (jsSetPrototype rt p proto).map fun r => (.flag r.1, r.2)
  | .preventExtensions p => (jsPreventExtensions rt p).map fun rt => (.flag true, rt)
  | .free p => (freeObject rt p).map fun rt => (.done, rt)

def performAll (undefined : α) (rt : ShapeRuntime α) (cmds : List (ObjectCommand α)) :
    Option (ShapeRuntime α) :=
  cmds.foldlM (fun rt cmd => (perform undefined rt cmd).map Prod.snd) rt

/-- Commands that name objects that are there and atoms of 32 bits, flags of 6 bits, and do not
    exceed what `hash_next` and the size of the table can count. -/
def Permitted (rt : ShapeRuntime α) : ObjectCommand α → Prop
  | .create proto => (∀ q, proto = some q → rt.view q ≠ none) ∧ rt.shapeHashCount + 1 ≤ 2 ^ 29
  | .add p atom flags _ => (∃ c, rt.content p = some c ∧ c.slots.length < 2 ^ 26 ∧ c.meaning.find atom = none) ∧
      0 < atom ∧ atom < 2 ^ 32 ∧ flags < 2 ^ 6
  | .get p atom => rt.view p ≠ none ∧ 0 < atom ∧ atom < 2 ^ 32
  | .set p atom _ => rt.view p ≠ none ∧ 0 < atom ∧ atom < 2 ^ 32
  | .setFlags p atom flags => rt.view p ≠ none ∧ 0 < atom ∧ atom < 2 ^ 32 ∧ flags < 2 ^ 6
  | .delete p atom => rt.view p ≠ none ∧ 0 < atom ∧ atom < 2 ^ 32
  | .setPrototype p proto => rt.view p ≠ none ∧ ∀ q, proto = some q → rt.view q ≠ none
  | .preventExtensions p => rt.view p ≠ none
  | .free p => rt.view p ≠ none ∧ ∀ q m, rt.view q = some m → m.proto ≠ some p

section Refinement
variable {rt rt' : ShapeRuntime α} {undefined : α} {p q : Addr} {c c' : Content α} {atom : JSAtom}
  {flags i : Nat}
  {value : α} {proto : Option Addr} {x : ShapeProperty × Option α} {cmd : ObjectCommand α}

theorem content_of_view (there : rt.view p ≠ none) : ∃ c, rt.content p = some c := by
  cases known : rt.content p with
  | none => exact absurd (by rw [ShapeRuntime.view, known]; rfl) there
  | some c => exact ⟨c, rfl⟩

theorem view_eq (known : rt.content p = some c) : rt.view p = some c.meaning := by
  rw [ShapeRuntime.view, known, Option.map_some]

theorem view_update {y : Option (Content α)}
    (contents : ∀ q, rt'.content q = if q = p then y else rt.content q) :
    rt'.view = Function.update rt.view p (y.map Content.meaning) := by
  funext q
  by_cases here : q = p
  · subst here
    rw [Function.update_self, ShapeRuntime.view, contents, if_pos rfl]
  · rw [Function.update_of_ne here, ShapeRuntime.view, contents, if_neg here, ShapeRuntime.view]

theorem good_update (good : Good rt) (sound : Sound rt')
    (contents : ∀ q, rt'.content q = if q = p then some c' else rt.content q)
    (written : Written c') : Good rt' := by
  refine ⟨sound, fun q c known => ?_⟩
  rw [contents] at known
  by_cases here : q = p
  · rw [if_pos here, Option.some.injEq] at known
    rw [← known]
    exact written
  · rw [if_neg here] at known
    exact good.written q c known

theorem slots_distinct (sound : Sound rt) (known : rt.content p = some c) (slot : c.slots[i]? = some x)
    (named : x.1.atom ≠ 0) : ∀ j y, c.slots[j]? = some y → y.1.atom = x.1.atom → j = i := by
  obtain ⟨o, sh, mine, there, rfl, size, valid⟩ := object_of sound.heaped known
  intro j y other same
  have first := atomAt_of (slot_eq.1 slot).1
  have second := atomAt_of (slot_eq.1 other).1
  exact valid.distinct j i (by rw [first, second, same]) (by rw [second, same]; exact named)

theorem search (good : Good rt) (known : rt.content p = some c) (named : 0 < atom) :
    (findOwnProperty rt p atom = some none ∧ (∀ x ∈ c.slots, x.1.atom ≠ atom) ∧ c.meaning.find atom = none) ∨
      ∃ i x v, findOwnProperty rt p atom = some (some i) ∧ c.slots[i]? = some x ∧ x.1.atom = atom ∧
        x.2 = some v ∧
        c.meaning.find atom = some ⟨atom, x.1.flags, v⟩ := by
  obtain ⟨r, finds, places⟩ := findOwnProperty_spec good.sound known (Nat.ne_of_gt named)
  cases r with
  | none =>
    have absent : ∀ x ∈ c.slots, x.1.atom ≠ atom := by
      intro x member same
      obtain ⟨i, slot⟩ := List.mem_iff_getElem?.1 member
      have found := (places i).2 ⟨x, slot, same⟩
      cases found
    exact .inl ⟨finds, absent, find_absent absent⟩
  | some i =>
    obtain ⟨x, slot, rfl⟩ := (places i).1 rfl
    have live := Nat.ne_of_gt named
    obtain ⟨v, value, entry⟩ := entryOf_some live (good.written p c known x (List.mem_of_getElem? slot))
    exact .inr ⟨i, x, v, finds, slot, rfl, value,
      find_slot slot (slots_distinct good.sound known slot live) entry⟩

theorem absent_of_find (good : Good rt) (known : rt.content p = some c) (named : 0 < atom)
    (none : c.meaning.find atom = none) : ∀ x ∈ c.slots, x.1.atom ≠ atom := by
  rcases search good known named with ⟨-, absent, -⟩ | ⟨i, x, v, -, -, -, -, found⟩
  · exact absent
  · rw [none] at found
    cases found

theorem written_set (written : Written c) {y : ShapeProperty × Option α} (value : y.2.isSome = true) :
    Written { c with slots := c.slots.set i y } := by
  intro z member
  rcases List.mem_or_eq_of_mem_set member with old | rfl
  · exact written z old
  · exact value

theorem adjust_absent (absent : ∀ x ∈ c.slots, x.1.atom ≠ atom) (g : Entry α → Option (Entry α)) :
    c.meaning.adjust atom g = c.meaning := by
  rw [PropertyMap.adjust, Content.meaning, filterMap_other g absent]

theorem meaning_set (sound : Sound rt) (known : rt.content p = some c) (slot : c.slots[i]? = some x)
    (named : x.1.atom ≠ 0) {v : α} (value : x.2 = some v) {y : ShapeProperty × Option α}
    {g : Entry α → Option (Entry α)} (change : entryOf y = g ⟨x.1.atom, x.1.flags, v⟩) :
    Content.meaning { c with slots := c.slots.set i y } = c.meaning.adjust x.1.atom g := by
  have entry : entryOf x = some ⟨x.1.atom, x.1.flags, v⟩ := by
    rw [entryOf, if_neg named, value, Option.map_some]
  rw [PropertyMap.adjust, Content.meaning, Content.meaning]
  rw [filterMap_set g slot (slots_distinct sound known slot named) entry change]

theorem view_keep (known : rt.content p = some c) : Function.update rt.view p (some c.meaning) = rt.view := by
  rw [← view_eq known, Function.update_eq_self]

theorem withProperty_spec (good : Good rt) (known : rt.content p = some c) (named : 0 < atom)
    {update : Nat → Option (ShapeRuntime α)} {change : ShapeProperty × Option α → ShapeProperty × Option α}
    {g : Entry α → Entry α} (value : ∀ x, x.2.isSome = true → (change x).2.isSome = true)
    (tells : ∀ x v, x.1.atom ≠ 0 → x.2 = some v → entryOf (change x) = some (g ⟨x.1.atom, x.1.flags, v⟩))
    (updates : ∀ i x, c.slots[i]? = some x → ∃ rt', update i = some rt' ∧ Sound rt' ∧
      ∀ q, rt'.content q = if q = p then some { c with slots := c.slots.set i (change x) } else rt.content q) :
    ∃ rt', withProperty rt p atom update = some (.flag (c.meaning.find atom).isSome, rt') ∧ Good rt' ∧
      rt'.view = Function.update rt.view p (some (c.meaning.adjust atom fun e => some (g e))) := by
  rcases search good known named with ⟨finds, absent, missing⟩ | ⟨i, x, v, finds, slot, rfl, his, found⟩
  · refine ⟨rt, ?_, good, ?_⟩
    · simp only [withProperty, finds, missing, Option.isSome_none, Option.bind_eq_bind, Option.bind_some]
    · rw [adjust_absent absent, view_keep known]
  · have live := Nat.ne_of_gt named
    obtain ⟨rt', updated, sound', contents⟩ := updates i x slot
    have written : (change x).2.isSome = true := value x (by rw [his]; rfl)
    have meant : Content.meaning { c with slots := c.slots.set i (change x) } =
        c.meaning.adjust x.1.atom fun e => some (g e) :=
      meaning_set good.sound known slot live his (tells x v live his)
    refine ⟨rt', ?_, good_update good sound' contents (written_set (good.written p c known) written), ?_⟩
    · simp only [withProperty, finds, updated, found, Option.isSome_some, Option.bind_eq_bind, Option.bind_some,
        Option.map_some]
    · rw [view_update contents, Option.map_some, meant]

theorem lookUp_spec (good : Good rt) (known : rt.content p = some c) (named : 0 < atom) :
    lookUp rt p atom = some ((c.meaning.find atom).map fun e => (e.flags, e.value)) := by
  rcases search good known named with ⟨finds, -, missing⟩ | ⟨i, x, v, finds, slot, -, his, found⟩
  · simp only [lookUp, finds, missing, Option.map_none, Option.bind_eq_bind, Option.bind_some]
  · obtain ⟨o, sh, mine, there, rfl, -, -⟩ := object_of good.sound.heaped known
    obtain ⟨property, value⟩ := slot_eq.1 slot
    simp only [lookUp, readProperty, finds, found, mine, there, property, value, his, Option.join_some,
      Option.map_some, Option.bind_eq_bind, Option.bind_some]

theorem addWithValue_spec (good : Good rt) (known : rt.content p = some c) (few : c.slots.length < 2 ^ 26)
    (named : 0 < atom) (new : c.meaning.find atom = none) (flags : Nat) (value : α) :
    ∃ rt', addWithValue rt p atom flags value = some rt' ∧ Good rt' ∧ rt'.view =
      Function.update rt.view p (some { c.meaning with
        entries := c.meaning.entries ++ [⟨atom, flags, value⟩] }) := by
  have fresh := absent_of_find good known named new
  obtain ⟨rt₁, v, adds, sound₁, contents₁⟩ :=
    addProperty_spec good.sound known few (Nat.ne_of_gt named) fresh flags
  have known₁ : rt₁.content p = some { c with slots := c.slots ++ [(⟨atom, flags⟩, v)] } := by
    rw [contents₁, if_pos rfl]
  have slot : (c.slots ++ [(⟨atom, flags⟩, v)])[c.slots.length]? =
      some ((⟨atom, flags⟩, v) : ShapeProperty × Option α) :=
    List.getElem?_concat_length
  obtain ⟨rt', sets, sound', contents'⟩ := setValue_spec sound₁ known₁ slot value
  have last : (c.slots ++ [((⟨atom, flags⟩ : ShapeProperty), v)]).set c.slots.length
      (⟨atom, flags⟩, some value) =
      c.slots ++ [(⟨atom, flags⟩, some value)] := by
    rw [List.set_append_right _ _ (Nat.le_refl _), Nat.sub_self, List.set_cons_zero]
  have contents : ∀ q, rt'.content q =
      if q = p then some { c with slots := c.slots ++ [(⟨atom, flags⟩, some value)] } else rt.content q := by
    intro q
    rw [contents']
    by_cases here : q = p
    · rw [if_pos here, if_pos here]
      exact congrArg (fun slots => some { c with slots := slots }) last
    · rw [if_neg here, if_neg here, contents₁, if_neg here]
  have written : Written { c with slots := c.slots ++ [(⟨atom, flags⟩, some value)] } := by
    intro x member
    rcases List.mem_append.1 member with old | added
    · exact good.written p c known x old
    · rw [List.mem_singleton.1 added]
      rfl
  refine ⟨rt', ?_, good_update good sound' contents written, ?_⟩
  · rw [addWithValue, adds, Option.bind_some, sets]
  · have entry : entryOf ((⟨atom, flags⟩, some value) : ShapeProperty × Option α) =
      some ⟨atom, flags, value⟩ := by
      rw [entryOf, if_neg (Nat.ne_of_gt named), Option.map_some]
    rw [view_update contents, Option.map_some]
    simp only [Content.meaning, List.filterMap_append, List.filterMap_cons, entry, List.filterMap_nil]

theorem deleteProperty_spec (good : Good rt) (undefined : α) (known : rt.content p = some c)
    (named : 0 < atom) :
    ∃ rt', deleteProperty undefined rt p atom = some (c.meaning.deletable atom, rt') ∧ Good rt' ∧
      rt'.view = Function.update rt.view p
        (some (if c.meaning.deletable atom then c.meaning.adjust atom fun _ => none else c.meaning)) := by
  rcases search good known named with ⟨-, absent, missing⟩ | ⟨i, x, v, -, slot, rfl, his, found⟩
  · have allowed : c.meaning.deletable atom = true := by rw [PropertyMap.deletable, missing]; rfl
    refine ⟨rt, ?_, good, ?_⟩
    · rw [allowed]
      exact deleteProperty_absent good.sound undefined known (Nat.ne_of_gt named) absent
    · rw [if_pos allowed, adjust_absent absent, view_keep known]
  · have live := Nat.ne_of_gt named
    have same : c.meaning.deletable x.1.atom = propConfigurable x.1.flags := by
      rw [PropertyMap.deletable, found]
      rfl
    have mine := good.written p c known
    obtain ⟨rt', slots, deletes, sound', left, contents⟩ :=
      deleteProperty_found good.sound undefined known slot live
      (mine x (List.mem_of_getElem? slot))
    rw [same]
    by_cases configurable : propConfigurable x.1.flags = true
    · rw [if_pos configurable] at left
      have gone : Content.meaning { c with slots := c.slots.set i (hole undefined) } =
          c.meaning.adjust x.1.atom fun _ => none :=
        meaning_set good.sound known slot live his rfl
      have holed : Written { c with slots := c.slots.set i (hole undefined) } := written_set mine rfl
      -- moving the rest together changes nothing that can be seen
      have both : Written { c with slots := slots } ∧
          Content.meaning { c with slots := slots } = c.meaning.adjust x.1.atom fun _ => none := by
        rcases left with rfl | rfl
        · exact ⟨holed, gone⟩
        · refine ⟨fun y member => holed y (List.mem_filter.1 member).1, ?_⟩
          rw [← gone, Content.meaning, Content.meaning, filterMap_live]
      refine ⟨rt', deletes, good_update good sound' contents both.1, ?_⟩
      rw [view_update contents, Option.map_some, both.2, if_pos configurable]
    · rw [if_neg configurable] at left
      subst left
      refine ⟨rt', deletes, good_update good sound' contents mine, ?_⟩
      rw [view_update contents, Option.map_some, if_neg configurable]

theorem protoIn_view : rt.protoIn = Shapes.protoIn rt.view := by
  funext q
  rw [ShapeRuntime.protoIn, Shapes.protoIn, ShapeRuntime.view]
  cases rt.content q with
  | none => rfl
  | some c => rfl

theorem setPrototype_acts (good : Good rt) (rooted : Rooted rt.view) (known : rt.content p = some c)
    (objects : ∀ q, proto = some q → rt.view q ≠ none) :
    ∃ b rt', jsSetPrototype rt p proto = some (b, rt') ∧ Good rt' ∧
      (b = true ↔ c.meaning.proto = proto ∨ (c.meaning.extensible = true ∧ ¬ OnChain rt.view p proto)) ∧
      rt'.view = Function.update rt.view p
        (some (if b then { c.meaning with proto := proto } else c.meaning)) := by
  obtain ⟨is, chain⟩ : ∃ is, Chain (Shapes.protoIn rt.view) proto is := by
    cases start : proto with
    | none => exact ⟨[], .stop⟩
    | some q => exact rooted.ends q
  have there : ∀ q ∈ is, rt.content q ≠ none := by
    intro q member missing
    exact rooted.chain_known chain objects q member (by rw [ShapeRuntime.view, missing]; rfl)
  have onChain : OnChain rt.view p proto ↔ p ∈ is := by
    constructor
    · rintro ⟨js, chain', member⟩
      rwa [chain_unique chain chain']
    · exact fun member => ⟨is, chain, member⟩
  have chain' : Chain rt.protoIn proto is := by rwa [protoIn_view]
  obtain ⟨b, rt', sets, sound', allowed, contents⟩ :=
    setPrototype_spec good.sound known chain' there (chain_nodup chain)
  refine ⟨b, rt', sets, ?_, ?_, ?_⟩
  · refine ⟨sound', fun q c' his => ?_⟩
    rw [contents] at his
    by_cases here : q = p ∧ b = true
    · rw [if_pos here, Option.some.injEq] at his
      rw [← his]
      exact good.written p c known
    · rw [if_neg here] at his
      exact good.written q c' his
  · rw [allowed, onChain]
    rfl
  · cases b with
    | true =>
      have contents' : ∀ q, rt'.content q = if q = p then some { c with proto := proto } else rt.content q := by
        intro q
        rw [contents]
        by_cases here : q = p
        · rw [if_pos ⟨here, rfl⟩, if_pos here]
        · rw [if_neg fun both => here both.1, if_neg here]
      rw [view_update contents']
      rfl
    | false =>
      have same : rt'.view = rt.view := by
        funext q
        rw [ShapeRuntime.view, contents, if_neg fun both => by cases both.2]
        rfl
      rw [same, if_neg Bool.false_ne_true, view_keep known]

theorem perform_spec (good : Good rt) (rooted : Rooted rt.view) (undefined : α) (permitted : Permitted rt cmd) :
    ∃ r rt', perform undefined rt cmd = some (r, rt') ∧ Good rt' ∧ Acts rt.view cmd r rt'.view := by
  cases cmd with
  | create proto =>
    obtain ⟨objects, few⟩ := permitted
    obtain ⟨p, rt', makes, sound', fresh, contents⟩ := newObjectProtoClass_spec good.sound few proto
    refine ⟨.object p, rt', by rw [perform, makes, Option.map_some], ?_, ?_⟩
    · exact good_update good sound' contents fun x member => by cases member
    · rw [view_update contents]
      exact .create (by rw [ShapeRuntime.view, fresh]; rfl) objects
  | add p atom flags value =>
    obtain ⟨⟨c, known, few, new⟩, named, -, -⟩ := permitted
    obtain ⟨rt', creates, good', view⟩ := addWithValue_spec good known few named new flags value
    refine ⟨.done, rt', by rw [perform, creates, Option.map_some], good', ?_⟩
    rw [view]
    exact .add (view_eq known) new
  | get p atom =>
    obtain ⟨there, named, -⟩ := permitted
    obtain ⟨c, known⟩ := content_of_view there
    exact ⟨_, rt, by rw [perform, lookUp_spec good known named, Option.map_some], good, .get (view_eq known)⟩
  | set p atom value =>
    obtain ⟨there, named, -⟩ := permitted
    obtain ⟨c, known⟩ := content_of_view there
    obtain ⟨rt', sets, good', view⟩ := @withProperty_spec _ rt p c atom good known named
      (fun i => setValue rt p i value) (fun x => (x.1, some value)) (fun e => { e with value := value })
      (fun _ _ => rfl) (fun x v live _ => by rw [entryOf, if_neg live, Option.map_some])
      fun i x slot => setValue_spec good.sound known slot value
    refine ⟨_, rt', sets, good', ?_⟩
    rw [view]
    exact .set (view_eq known)
  | setFlags p atom flags =>
    obtain ⟨there, named, -, -⟩ := permitted
    obtain ⟨c, known⟩ := content_of_view there
    obtain ⟨rt', sets, good', view⟩ := @withProperty_spec _ rt p c atom good known named
      (fun i => jsUpdatePropertyFlags rt p i flags) (fun x => ({ x.1 with flags := flags }, x.2))
      (fun e => { e with flags := flags }) (fun _ written => written)
      (fun x v live his => by rw [entryOf, if_neg live, his, Option.map_some])
      fun i x slot => updatePropertyFlags_spec good.sound known slot flags
    refine ⟨_, rt', sets, good', ?_⟩
    rw [view]
    exact .setFlags (view_eq known)
  | delete p atom =>
    obtain ⟨there, named, -⟩ := permitted
    obtain ⟨c, known⟩ := content_of_view there
    obtain ⟨rt', deletes, good', view⟩ := deleteProperty_spec good undefined known named
    refine ⟨_, rt', by rw [perform, deletes, Option.map_some], good', ?_⟩
    rw [view]
    exact .delete (view_eq known)
  | setPrototype p proto =>
    obtain ⟨there, objects⟩ := permitted
    obtain ⟨c, known⟩ := content_of_view there
    obtain ⟨b, rt', sets, good', allowed, view⟩ := setPrototype_acts good rooted known objects
    refine ⟨_, rt', by rw [perform, sets, Option.map_some], good', ?_⟩
    rw [view]
    exact .setPrototype (view_eq known) objects allowed
  | preventExtensions p =>
    obtain ⟨c, known⟩ := content_of_view permitted
    obtain ⟨rt', prevents, sound', contents⟩ := preventExtensions_spec good.sound known
    refine ⟨_, rt', by rw [perform, prevents, Option.map_some], ?_, ?_⟩
    · exact good_update good sound' contents (good.written p c known)
    · rw [view_update contents]
      exact .preventExtensions (view_eq known)
  | free p =>
    obtain ⟨there, unused⟩ := permitted
    obtain ⟨c, known⟩ := content_of_view there
    obtain ⟨rt', frees, sound', contents⟩ := freeObject_spec good.sound known (good.written p c known)
    refine ⟨_, rt', by rw [perform, frees, Option.map_some], ⟨sound', fun q c' his => ?_⟩, ?_⟩
    · rw [contents] at his
      by_cases here : q = p
      · rw [if_pos here] at his
        cases his
      · rw [if_neg here] at his
        exact good.written q c' his
    · rw [view_update contents]
      exact .free (view_eq known) unused

end Refinement

/-- The runs from the empty runtime, with the commands and what they answer. -/
inductive ObjectRun (undefined : α) : List (ObjectCommand α × Reply α) → ShapeRuntime α → Prop where
  | start : ObjectRun undefined [] (initShapeHash α)
  | step {log : List (ObjectCommand α × Reply α)} {rt rt' : ShapeRuntime α} {cmd : ObjectCommand α}
      {r : Reply α}
      (run : ObjectRun undefined log rt) (permitted : Permitted rt cmd)
      (performs : perform undefined rt cmd = some (r, rt')) : ObjectRun undefined (log ++ [(cmd, r)]) rt'

section Runs
variable {rt rt' : ShapeRuntime α} {undefined : α} {cmd : ObjectCommand α} {r r' : Reply α}
  {log log' : List (ObjectCommand α × Reply α)} {w w₁ w₂ : Objects α}

theorem good_start : Good (initShapeHash α) := by
  have bare : ∀ s, ¬ (initShapeHash α).HashedAt s := by
    rintro s ⟨sh, there, -⟩
    cases there
  refine ⟨⟨⟨?_, ?_, ?_, ?_, ?_, ?_, ?_, ?_⟩, ⟨?_, ?_, ?_, rfl, ?_⟩, ?_⟩, ?_⟩
  · intro s sh there
    cases there
  · intro p o mine
    cases mine
  · intro s sh there
    cases there
  · intro s sh there
    cases there
  · intro s sh there
    cases there
  · intro s sh there
    cases there
  · intro s sh there
    cases there
  · intro p o mine
    cases mine
  · have filed : Filed (initShapeHash α).table ((initShapeHash α).bucketOf 4) fun _ => False :=
      filed_empty _ fun _ => rfl
    exact filed_congr filed (fun s => iff_of_false (bare s) id) fun s no => no.elim
  · exact fun s filed => absurd filed (bare s)
  · have none : {s | (initShapeHash α).HashedAt s} = ∅ := Set.eq_empty_iff_forall_notMem.2 bare
    rw [none, Set.ncard_empty]
    rfl
  · exact (by decide : 4 ≤ 30)
  · intro s t sh sh' there
    cases there
  · intro p c known
    cases known

theorem performed (good : Good rt) (rooted : Rooted rt.view) (permitted : Permitted rt cmd)
    (performs : perform undefined rt cmd = some (r, rt')) : Good rt' ∧ Acts rt.view cmd r rt'.view := by
  obtain ⟨r₁, rt₁, first, good', acts⟩ := perform_spec good rooted undefined permitted
  rw [performs, Option.some.injEq, Prod.mk.injEq] at first
  obtain ⟨rfl, rfl⟩ := first
  exact ⟨good', acts⟩

theorem reached_good (run : ObjectRun undefined log rt) :
    Good rt ∧ Rooted rt.view ∧ ActsAll (fun _ => none) log rt.view := by
  induction run with
  | start => exact ⟨good_start, rooted_none, .stop⟩
  | step run permitted performs ih =>
    obtain ⟨good, rooted, all⟩ := ih
    obtain ⟨good', acts⟩ := performed good rooted permitted performs
    exact ⟨good', acts.rooted rooted, .step all acts⟩

theorem acts_determined (acts : Acts w cmd r w₁) (again : Acts w cmd r' w₂)
    (old : ∀ proto, cmd ≠ .create proto) : r = r' ∧ w₁ = w₂ := by
  cases acts with
  | create => exact absurd rfl (old _)
  | add there new =>
    cases again with
    | add there' new' =>
      obtain rfl := Option.some.inj (there.symm.trans there')
      exact ⟨rfl, rfl⟩
  | get there =>
    cases again with
    | get there' =>
      obtain rfl := Option.some.inj (there.symm.trans there')
      exact ⟨rfl, rfl⟩
  | set there =>
    cases again with
    | set there' =>
      obtain rfl := Option.some.inj (there.symm.trans there')
      exact ⟨rfl, rfl⟩
  | setFlags there =>
    cases again with
    | setFlags there' =>
      obtain rfl := Option.some.inj (there.symm.trans there')
      exact ⟨rfl, rfl⟩
  | delete there =>
    cases again with
    | delete there' =>
      obtain rfl := Option.some.inj (there.symm.trans there')
      exact ⟨rfl, rfl⟩
  | setPrototype there known allowed =>
    cases again with
    | setPrototype there' known' allowed' =>
      obtain rfl := Option.some.inj (there.symm.trans there')
      have same := Bool.eq_iff_iff.2 (allowed.trans allowed'.symm)
      subst same
      exact ⟨rfl, rfl⟩
  | preventExtensions there =>
    cases again with
    | preventExtensions there' =>
      obtain rfl := Option.some.inj (there.symm.trans there')
      exact ⟨rfl, rfl⟩
  | free there unused =>
    cases again with
    | free there' unused' => exact ⟨rfl, rfl⟩

/-- A runtime with one object that has one property. -/
def propertyAdded : ShapeRuntime Nat :=
  (performAll 0 (initShapeHash Nat) [.create none, .add 2 5 7 9]).getD (initShapeHash Nat)

/-- The same after other flags and the first ones again. -/
def propertyReflagged : ShapeRuntime Nat :=
  (performAll 0 propertyAdded [.setFlags 2 5 3, .setFlags 2 5 7]).getD propertyAdded

theorem propertyAdded_run : ObjectRun 0 [(.create none, .object 2), (.add 2 5 7 9, .done)] propertyAdded := by
  have first : Permitted (initShapeHash Nat) (.create none) := ⟨(fun q no => by cases no), by decide⟩
  refine .step (.step .start first rfl) ?_ rfl
  exact ⟨⟨_, rfl, by decide, rfl⟩, by decide, by decide, by decide⟩

theorem propertyReflagged_run : ObjectRun 0 [(.create none, .object 2), (.add 2 5 7 9, .done),
    (.setFlags 2 5 3, .flag true), (.setFlags 2 5 7, .flag true)] propertyReflagged := by
  have first : Permitted propertyAdded (.setFlags 2 5 3) :=
    ⟨Option.some_ne_none _, by decide, by decide, by decide⟩
  refine .step (.step propertyAdded_run first rfl) ?_ rfl
  exact ⟨Option.some_ne_none _, by decide, by decide, by decide⟩

theorem setFlags_view {p : Addr} {m : PropertyMap α} {atom : JSAtom} {flags : Nat}
    (acts : Acts w (.setFlags p atom flags) r w₁) (there : w p = some m) :
    w₁ = Function.update w p (some (m.adjust atom fun e => some { e with flags := flags })) :=
  (acts_determined acts (.setFlags there) fun proto no => by cases no).2

theorem propertyReflagged_view : propertyReflagged.view = propertyAdded.view := by
  obtain ⟨good, rooted, -⟩ := reached_good propertyAdded_run
  have first : Permitted propertyAdded (.setFlags 2 5 3) :=
    ⟨Option.some_ne_none _, by decide, by decide, by decide⟩
  obtain ⟨r, rt, performs, good', acts⟩ := perform_spec good rooted 0 first
  have there : propertyAdded.view 2 = some ⟨none, true, [⟨5, 7, 9⟩]⟩ := rfl
  have changed := setFlags_view acts there
  have next : Permitted rt (.setFlags 2 5 7) := by
    refine ⟨?_, by decide, by decide, by decide⟩
    rw [changed, Function.update_self]
    exact Option.some_ne_none _
  obtain ⟨r', rt', performs', -, acts'⟩ := perform_spec good' (acts.rooted rooted) 0 next
  have back := setFlags_view acts' (by rw [changed, Function.update_self])
  have same : propertyReflagged = rt' := by
    simp only [propertyReflagged, performAll, List.foldlM_cons, List.foldlM_nil, performs, performs',
      Option.map_some,
      Option.bind_eq_bind, Option.bind_some, Option.pure_def, Option.getD_some]
  rw [same, back, changed, Function.update_idem]
  exact Function.update_eq_self 2 propertyAdded.view

/-- Every run on shared shapes is a run on lists of properties of which each object has its own. -/
theorem object_runs_refine (run : ObjectRun undefined log rt) : ActsAll (fun _ => none) log rt.view :=
  (reached_good run).2.2

theorem first_object_refines :
    ActsAll (fun _ => none) [(.create none, .object 2), (.add 2 5 7 9, .done)] propertyAdded.view :=
  object_runs_refine propertyAdded_run

/-- No permitted command fails, goes on for ever or comes to a broken assertion. -/
theorem object_commands_succeed (run : ObjectRun undefined log rt) (permitted : Permitted rt cmd) :
    ∃ r rt', perform undefined rt cmd = some (r, rt') ∧ Acts rt.view cmd r rt'.view := by
  obtain ⟨good, rooted, -⟩ := reached_good run
  obtain ⟨r, rt', performs, -, acts⟩ := perform_spec good rooted undefined permitted
  exact ⟨r, rt', performs, acts⟩

theorem next_command_succeeds : ∃ r rt, perform 0 propertyAdded (.delete 2 5) = some (r, rt) ∧
    Acts propertyAdded.view (.delete 2 5) r rt.view :=
  object_commands_succeed propertyAdded_run
    (⟨Option.some_ne_none _, by decide, by decide⟩ : propertyAdded.view 2 ≠ none ∧ 0 < 5 ∧ 5 < 2 ^ 32)

/-- Two histories that leave the same properties cannot be told apart, whatever their shapes are. -/
theorem histories_agree {rt₁ rt₂ : ShapeRuntime α} (run₁ : ObjectRun undefined log rt₁)
    (run₂ : ObjectRun undefined log' rt₂) (same : rt₁.view = rt₂.view) (old : ∀ proto, cmd ≠ .create proto)
    (permitted₁ : Permitted rt₁ cmd) (permitted₂ : Permitted rt₂ cmd) :
    ∃ r rt₁' rt₂', perform undefined rt₁ cmd = some (r, rt₁') ∧ perform undefined rt₂ cmd = some (r, rt₂') ∧
      rt₁'.view = rt₂'.view := by
  obtain ⟨good₁, rooted₁, -⟩ := reached_good run₁
  obtain ⟨good₂, rooted₂, -⟩ := reached_good run₂
  obtain ⟨r, rt₁', performs₁, -, acts₁⟩ := perform_spec good₁ rooted₁ undefined permitted₁
  obtain ⟨r', rt₂', performs₂, -, acts₂⟩ := perform_spec good₂ rooted₂ undefined permitted₂
  rw [← same] at acts₂
  obtain ⟨rfl, views⟩ := acts_determined acts₁ acts₂ old
  exact ⟨r, rt₁', rt₂', performs₁, performs₂, views⟩

/-- One object has the shape that it came to, the other a shape of its own. -/
theorem reflagged_agrees : ∃ r rt₁ rt₂, perform 0 propertyAdded (.delete 2 5) = some (r, rt₁) ∧
    perform 0 propertyReflagged (.delete 2 5) = some (r, rt₂) ∧ rt₁.view = rt₂.view :=
  histories_agree propertyAdded_run propertyReflagged_run propertyReflagged_view.symm
    (fun proto no => by cases no)
    (⟨Option.some_ne_none _, by decide, by decide⟩ : propertyAdded.view 2 ≠ none ∧ 0 < 5 ∧ 5 < 2 ^ 32)
    (⟨Option.some_ne_none _, by decide, by decide⟩ : propertyReflagged.view 2 ≠ none ∧ 0 < 5 ∧ 5 < 2 ^ 32)

/-- Hashed shapes with the same prototype and properties are one shape, each shape counts its
    objects, and the table files the hashed ones. -/
theorem shapes_shared (run : ObjectRun undefined log rt) : Canonical rt ∧
    (∀ s sh, rt.shapes s = some sh → sh.refCount = (rt.usersOf s).ncard ∧ 0 < sh.refCount ∧
      (sh.isHashed = false → sh.refCount = 1)) ∧
    Filed rt.table (rt.bucketOf rt.shapeHashBits) rt.HashedAt := by
  obtain ⟨⟨⟨heaped, tabled, canonical⟩, -⟩, -, -⟩ := reached_good run
  refine ⟨canonical, fun s sh there => ⟨?_, heaped.used s sh there, heaped.alone s sh there⟩, tabled.chained⟩
  have counted := heaped.counted s sh there
  have free : heldAt none s = 0 := rfl
  rw [free, Nat.add_zero] at counted
  exact counted.symm

/-- Two objects share a shape with a prototype, and one of them is the prototype of a fourth. -/
def sharedChain : ShapeRuntime Nat :=
  (performAll 0 (initShapeHash Nat) [.create none, .create (some 2), .create (some 2), .add 4 5 7 9,
    .add 5 5 7 8, .create (some 4)]).getD (initShapeHash Nat)

theorem sharedChain_run : ObjectRun 0 [(.create none, .object 2), (.create (some 2), .object 4),
    (.create (some 2), .object 5), (.add 4 5 7 9, .done), (.add 5 5 7 8, .done),
    (.create (some 4), .object 8)] sharedChain := by
  have known : ∀ {rt : ShapeRuntime Nat} {p : Addr}, rt.view p ≠ none →
      ∀ q, some p = some q → rt.view q ≠ none := by
    rintro rt p there q same
    cases same
    exact there
  refine .step (.step (.step (.step (.step (.step .start ?_ rfl) ?_ rfl) ?_ rfl) ?_ rfl) ?_ rfl) ?_ rfl
  · exact ⟨(fun q no => by cases no), by decide⟩
  · exact ⟨known (Option.some_ne_none _), by decide⟩
  · exact ⟨known (Option.some_ne_none _), by decide⟩
  · exact ⟨⟨_, rfl, by decide, rfl⟩, by decide, by decide, by decide⟩
  · exact ⟨⟨_, rfl, by decide, rfl⟩, by decide, by decide, by decide⟩
  · exact ⟨known (Option.some_ne_none _), by decide⟩

theorem sharedChain_shared : Canonical sharedChain ∧ (sharedChain.usersOf 6).ncard = 2 ∧
    Filed sharedChain.table (sharedChain.bucketOf sharedChain.shapeHashBits) sharedChain.HashedAt := by
  obtain ⟨canonical, counts, filed⟩ := shapes_shared sharedChain_run
  exact ⟨canonical, (counts 6 _ rfl).1.symm, filed⟩

/-- The prototypes of an object are objects, and no chain of them comes back to where it was. -/
theorem prototypes_end (run : ObjectRun undefined log rt) (p : Addr) (there : rt.view p ≠ none) :
    ∃ is, Chain (protoIn rt.view) (some p) is ∧ is.Nodup ∧ ∀ q ∈ is, rt.view q ≠ none := by
  obtain ⟨-, rooted, -⟩ := reached_good run
  obtain ⟨is, chain⟩ := rooted.ends p
  refine ⟨is, chain, chain_nodup chain, rooted.chain_known chain fun q same => ?_⟩
  rw [Option.some.injEq] at same
  rwa [← same]

theorem sharedChain_ends : ∃ is, Chain (protoIn sharedChain.view) (some 8) is ∧ is.Nodup ∧
    ∀ q ∈ is, sharedChain.view q ≠ none :=
  prototypes_end sharedChain_run 8 (Option.some_ne_none _)

end Runs

end QuickJSBridge.Shapes
