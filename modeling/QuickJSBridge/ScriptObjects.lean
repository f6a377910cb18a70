import Mathlib.Logic.Function.Basic

/- Objects of a prototype-based language. An object has own properties, a prototype and, if it
   is an array, a length that stays above every index. Reading and writing walk along the
   prototypes; the walk may come to code, which then decides. -/
namespace ScriptObjects

variable {O N V : Type}

inductive Key (N : Type) where
  | index (i : Nat)
  | name (n : N)
  deriving DecidableEq

def Key.isIndex : Key N → Bool
  | .index _ => true
  | .name _ => false

/-- A value, or the functions that get and set one. -/
inductive Property (O V : Type) where
  | data (value : V) (writable : Bool)
  | accessor (getter setter : Option O)

structure ArrayLength where
  value : Nat
  writable : Bool

def ArrayLength.holding (l : ArrayLength) : Key N → ArrayLength
  | .index i => { l with value := max l.value (i + 1) }
  | .name _ => l

theorem ArrayLength.le_holding (l : ArrayLength) (k : Key N) : l.value ≤ (l.holding k).value := by
  cases k with
  | index i => exact Nat.le_max_left _ _
  | name n => exact Nat.le_refl _

structure Object (O N V : Type) where
  /-- All own properties but an array's length. -/
  own : Key N → Option (Property O V)
  length : Option ArrayLength
  proto : Option O
  extensible : Bool
  /-- It has rules of its own for properties that are not there. -/
  exotic : Bool
  /-- An array that keeps its elements in a row. -/
  dense : Bool
  above : ∀ l, length = some l → ∀ i, (own (.index i)).isSome = true → i < l.value

abbrev Store (O N V : Type) := O → Option (Object O N V)

/-- How the language spells the length of an array, as a name and as a value, and the values that
    are no length whatever code does. -/
structure LengthSpelling (N V : Type) where
  name : N
  number : Nat → V
  bars : V → Bool

section Access
variable [DecidableEq N] (L : LengthSpelling N V)

def Object.property (o : Object O N V) (k : Key N) : Option (Property O V) :=
  match o.length with
  | none => o.own k
  | some l => if k = .name L.name then some (.data (L.number l.value) l.writable) else o.own k

inductive Found (V : Type) where
  | absent
  | value (v : V)
  /-- A getter, or an object with rules of its own. -/
  | code
  deriving DecidableEq

def Property.read : Property O V → Found V
  | .data v _ => .value v
  | .accessor (some _) _ => .code
  | .accessor none _ => .absent

def Object.found (o : Object O N V) (k : Key N) : Option (Found V) :=
  match o.property L k with
  | some x => some x.read
  | none => if o.exotic then some .code else none

def find (st : Store O N V) (k : Key N) : Nat → O → Option (Found V)
  | 0, _ => none
  | depth + 1, p => (st p).bind fun o =>
    match o.found L k with
    | some f => some f
    | none =>
      match o.proto with
      | none => some .absent
      | some q => find st k depth q

inductive Permission where
  | granted
  | refused
  | code
  deriving DecidableEq

/-- What a prototype says to a new property below it. One that can be written is passed over,
    unless it is an element of a dense array. -/
def Object.permits (o : Object O N V) (k : Key N) : Option Permission :=
  match o.property L k with
  | some (.accessor _ (some _)) => some .code
  | some (.accessor _ none) | some (.data _ false) => some .refused
  | some (.data _ true) =>
    if o.dense && k.isIndex then some .granted else if o.exotic then some .code else none
  | none => if o.exotic then some .code else none

def permission (st : Store O N V) (k : Key N) : Nat → Option O → Option Permission
  | _, none => some .granted
  | 0, some _ => none
  | depth + 1, some q => (st q).bind fun o =>
    match o.permits L k with
    | some g => some g
    | none => permission st k depth o.proto

def Object.staysDense (o : Object O N V) : Key N → Bool
  | .name _ => o.dense
  | .index i => o.dense && ((o.own (.index i)).isSome || i = 0 || (o.own (.index (i - 1))).isSome)

def Object.put (o : Object O N V) (k : Key N) (v : V) : Object O N V where
  own := Function.update o.own k (some (.data v true))
  length := o.length.map (·.holding k)
  proto := o.proto
  extensible := o.extensible
  exotic := o.exotic
  dense := o.staysDense k
  above := by
    intro l' grown i there
    obtain ⟨l, has, rfl⟩ := Option.map_eq_some_iff.1 grown
    by_cases same : .index i = k
    · subst same
      exact Nat.lt_of_lt_of_le (Nat.lt_succ_self i) (Nat.le_max_right _ _)
    · rw [Function.update_of_ne same] at there
      exact Nat.lt_of_lt_of_le (o.above l has i there) (l.le_holding k)

/-- The object with a new property, unless it takes no more, or its length stands against it. -/
def Object.add (o : Object O N V) (k : Key N) (v : V) : Option (Object O N V) :=
  if o.extensible && o.length.all (fun l => l.writable || (l.holding k).value = l.value) then
    some (o.put k v)
  else none

inductive Written (O N V : Type) where
  | stored (o : Object O N V)
  | refused
  | code

/-- What an own property makes of a new value. Setting the length of an array is left to code,
    as the value has to be converted first, unless that fails at once. -/
def Object.assign (o : Object O N V) (k : Key N) (v : V) : Option (Written O N V) :=
  if o.length.isSome && k = .name L.name then some (if L.bars v then .refused else .code)
  else
    match o.own k with
    | some (.data _ true) => some (.stored (o.put k v))
    | some (.data _ false) | some (.accessor _ none) => some .refused
    | some (.accessor _ (some _)) => some .code
    | none => if o.exotic then some .code else none

/-- What becomes of a property that is not there. -/
def Object.create (o : Object O N V) (k : Key N) (v : V) : Permission → Written O N V
  | .granted =>
    match o.add k v with
    | some o' => .stored o'
    | none => .refused
  | .refused => .refused
  | .code => .code

def write (st : Store O N V) (p : O) (k : Key N) (v : V) (depth : Nat) : Option (Written O N V) :=
  (st p).bind fun o =>
    match o.assign L k v with
    | some r => some r
    | none => (permission L st k depth o.proto).map (o.create k v)

def Finds (st : Store O N V) (p : O) (k : Key N) (f : Found V) : Prop :=
  ∃ depth, find L st k depth p = some f
def Writes (st : Store O N V) (p : O) (k : Key N) (v : V) (r : Written O N V) : Prop :=
  ∃ depth, write L st p k v depth = some r

end Access

section Depth
variable [DecidableEq N] {L : LengthSpelling N V} {st : Store O N V} {k : Key N}

theorem find_deeper {depth deeper : Nat} {p : O} {f : Found V} (found : find L st k depth p = some f)
    (more : depth ≤ deeper) : find L st k deeper p = some f := by
  induction depth generalizing p deeper with
  | zero => cases found
  | succ depth ih =>
    obtain ⟨deeper, rfl⟩ := Nat.exists_eq_add_of_lt more
    obtain ⟨o, here, rest⟩ := Option.bind_eq_some_iff.1 found
    simp only [find, here, Option.bind_some]
    cases own : o.found L k with
    | some g => simpa only [own] using rest
    | none =>
      cases next : o.proto with
      | none => simpa only [own, next] using rest
      | some q =>
        simp only [own, next] at rest
        exact ih rest (by omega)

theorem permission_deeper {depth deeper : Nat} {q : Option O} {g : Permission}
    (given : permission L st k depth q = some g) (more : depth ≤ deeper) :
    permission L st k deeper q = some g := by
  induction depth generalizing q deeper with
  | zero =>
    cases q with
    | none => cases deeper <;> exact given
    | some q => cases given
  | succ depth ih =>
    obtain ⟨deeper, rfl⟩ := Nat.exists_eq_add_of_lt more
    cases q with
    | none => exact given
    | some q =>
      obtain ⟨o, here, rest⟩ := Option.bind_eq_some_iff.1 given
      simp only [permission, here, Option.bind_some]
      cases own : o.permits L k with
      | some g => simpa only [own] using rest
      | none =>
        simp only [own] at rest
        exact ih rest (by omega)

theorem write_deeper {depth deeper : Nat} {p : O} {v : V} {r : Written O N V}
    (written : write L st p k v depth = some r) (more : depth ≤ deeper) :
    write L st p k v deeper = some r := by
  obtain ⟨o, here, rest⟩ := Option.bind_eq_some_iff.1 written
  simp only [write, here, Option.bind_some]
  cases own : o.assign L k v with
  | some r => simpa only [own] using rest
  | none =>
    simp only [own] at rest
    obtain ⟨g, given, same⟩ := Option.map_eq_some_iff.1 rest
    simp only [permission_deeper given more, Option.map_some, same]

theorem finds_unique {p : O} {f g : Found V} (one : Finds L st p k f) (two : Finds L st p k g) :
    f = g := by
  obtain ⟨m, one⟩ := one
  obtain ⟨n, two⟩ := two
  have left := find_deeper one (Nat.le_max_left m n)
  have right := find_deeper two (Nat.le_max_right m n)
  exact Option.some.inj (left.symm.trans right)

theorem writes_unique {p : O} {v : V} {r s : Written O N V} (one : Writes L st p k v r)
    (two : Writes L st p k v s) : r = s := by
  obtain ⟨m, one⟩ := one
  obtain ⟨n, two⟩ := two
  have left := write_deeper one (Nat.le_max_left m n)
  have right := write_deeper two (Nat.le_max_right m n)
  exact Option.some.inj (left.symm.trans right)

theorem find_of_permission {depth : Nat} {q : O} {g : Permission}
    (given : permission L st k depth (some q) = some g) : ∃ f, find L st k depth q = some f := by
  induction depth generalizing q with
  | zero => cases given
  | succ depth ih =>
    obtain ⟨o, here, rest⟩ := Option.bind_eq_some_iff.1 given
    simp only [find, here, Option.bind_some]
    cases answers : o.found L k with
    | some f => exact ⟨f, rfl⟩
    | none =>
      have passed : o.permits L k = none := by
        unfold Object.found at answers
        unfold Object.permits
        cases has : o.property L k with
        | some x =>
          rw [has] at answers
          cases answers
        | none =>
          simp only [has] at answers
          cases exotic : o.exotic with
          | true => simp [exotic] at answers
          | false => rfl
      simp only [passed] at rest
      cases next : o.proto with
      | none => exact ⟨.absent, rfl⟩
      | some r =>
        rw [next] at rest
        exact ih rest

theorem finds_of_refused {p : O} {v : V} (refused : Writes L st p k v .refused) :
    ∃ f, Finds L st p k f := by
  obtain ⟨depth, written⟩ := refused
  obtain ⟨o, here, rest⟩ := Option.bind_eq_some_iff.1 written
  cases answers : o.found L k with
  | some f =>
    refine ⟨f, 1, ?_⟩
    simp only [find, here, Option.bind_some, answers]
  | none =>
    have new : o.assign L k v = none := by
      unfold Object.found Object.property at answers
      cases assigned : o.assign L k v with
      | none => rfl
      | some r =>
        simp only [assigned] at rest
        cases rest
        unfold Object.assign at assigned
        split at assigned
        next special =>
          obtain ⟨array, name⟩ := Bool.and_eq_true_iff.1 special
          obtain ⟨l, length⟩ := Option.isSome_iff_exists.1 array
          rw [length] at answers
          simp only [of_decide_eq_true name, if_true] at answers
          cases answers
        next ordinary =>
          have has : ∃ x, o.own k = some x := by
            split at assigned
            · cases assigned
            next x own => exact ⟨_, own⟩
            next x own => exact ⟨_, own⟩
            · cases assigned
            · split at assigned <;> cases assigned
          obtain ⟨x, own⟩ := has
          have there : o.property L k = some x := by
            unfold Object.property
            cases array : o.length with
            | none => exact own
            | some l =>
              have other : k ≠ .name L.name := by
                intro name
                apply ordinary
                rw [array, name]
                simp
              simp only [if_neg other, own]
          unfold Object.property at there
          rw [there] at answers
          cases answers
    simp only [new] at rest
    obtain ⟨g, given, -⟩ := Option.map_eq_some_iff.1 rest
    cases next : o.proto with
    | none =>
      refine ⟨.absent, 1, ?_⟩
      simp only [find, here, Option.bind_some, answers, next]
    | some q =>
      rw [next] at given
      obtain ⟨f, found⟩ := find_of_permission given
      refine ⟨f, depth + 1, ?_⟩
      simp only [find, here, Option.bind_some, answers, next, found]

theorem writes_alike {p : O} {v : V} {r : Written O N V} (written : Writes L st p k v r)
    (name : ∀ o, st p = some o → o.length.isSome = true → k ≠ .name L.name) :
    (∀ u, ∃ o, Writes L st p k u (.stored o)) ∨ (∀ u, Writes L st p k u .refused) ∨
    (∀ u, Writes L st p k u .code) := by
  obtain ⟨depth, written⟩ := written
  obtain ⟨o, here, rest⟩ := Option.bind_eq_some_iff.1 written
  have decides : ∀ u r, o.assign L k u = some r → Writes L st p k u r := by
    intro u r assigned
    refine ⟨0, ?_⟩
    simp only [write, here, Option.bind_some, assigned]
  by_cases special : (o.length.isSome && k = .name L.name) = true
  · obtain ⟨array, length⟩ := Bool.and_eq_true_iff.1 special
    exact absurd (of_decide_eq_true length) (name o here array)
  · have assign : ∀ u, o.assign L k u = match o.own k with
        | some (.data _ true) => some (.stored (o.put k u))
        | some (.data _ false) | some (.accessor _ none) => some .refused
        | some (.accessor _ (some _)) => some .code
        | none => if o.exotic then some .code else none := fun u => if_neg special
    cases own : o.own k with
    | some x =>
      cases x with
      | data old writable =>
        cases writable with
        | true => exact Or.inl fun u => ⟨_, decides u _ (by rw [assign, own])⟩
        | false => exact Or.inr (Or.inl fun u => decides u _ (by rw [assign, own]))
      | accessor getter setter =>
        cases setter with
        | none => exact Or.inr (Or.inl fun u => decides u _ (by rw [assign, own]))
        | some f => exact Or.inr (Or.inr fun u => decides u _ (by rw [assign, own]))
    | none =>
      cases exotic : o.exotic with
      | true => exact Or.inr (Or.inr fun u => decides u _ (by rw [assign, own]; simp [exotic]))
      | false =>
        have new : ∀ u, o.assign L k u = none := by
          intro u
          rw [assign, own]
          simp [exotic]
        rw [new] at rest
        obtain ⟨g, given, -⟩ := Option.map_eq_some_iff.1 rest
        have creates : ∀ u, Writes L st p k u (o.create k u g) := by
          intro u
          refine ⟨depth, ?_⟩
          simp only [write, here, Option.bind_some, new, given, Option.map_some]
        cases g with
        | refused => exact Or.inr (Or.inl creates)
        | code => exact Or.inr (Or.inr creates)
        | granted =>
          by_cases grows : (o.extensible && o.length.all
              fun l => l.writable || (l.holding k).value = l.value) = true
          · left
            intro u
            refine ⟨o.put k u, ?_⟩
            have added : o.create k u .granted = .stored (o.put k u) := by
              simp only [Object.create, Object.add, if_pos grows]
            exact added ▸ creates u
          · right
            left
            intro u
            have full : o.create k u .granted = .refused := by
              simp only [Object.create, Object.add, if_neg grows]
            exact full ▸ creates u

/-- The prototypes of an object come to an end. -/
inductive ChainEnds (st : Store O N V) : Option O → Prop where
  | last : ChainEnds st none
  | next {q : O} {o : Object O N V} (here : st q = some o) (rest : ChainEnds st o.proto) : ChainEnds st (some q)

theorem permission_ends {q : Option O} (ends : ChainEnds st q) : ∃ depth g,
    permission L st k depth q = some g := by
  induction ends with
  | last => exact ⟨0, .granted, rfl⟩
  | @next q o here rest ih =>
    obtain ⟨depth, g, given⟩ := ih
    cases allows : o.permits L k with
    | some g =>
      refine ⟨1, g, ?_⟩
      simp only [permission, here, Option.bind_some, allows]
    | none =>
      refine ⟨depth + 1, g, ?_⟩
      simp only [permission, here, Option.bind_some, allows, given]

theorem writes_ends {p : O} {o : Object O N V} (here : st p = some o) (ends : ChainEnds st o.proto) (v : V) :
    ∃ r, Writes L st p k v r := by
  obtain ⟨depth, g, given⟩ := @permission_ends _ _ _ _ L _ k _ ends
  cases assigned : o.assign L k v with
  | some r =>
    refine ⟨r, 0, ?_⟩
    simp only [write, here, Option.bind_some, assigned]
  | none =>
    refine ⟨o.create k v g, depth, ?_⟩
    simp only [write, here, Option.bind_some, assigned, given, Option.map_some]

end Depth

section Laws
variable [DecidableEq N] {L : LengthSpelling N V} {st st' : Store O N V} {k k' : Key N}

theorem find_congr (answers : ∀ q o, st q = some o → ∃ o', st' q = some o' ∧
    o'.found L k = o.found L k ∧ o'.proto = o.proto) {depth : Nat} {p : O} {f : Found V}
    (found : find L st k depth p = some f) : find L st' k depth p = some f := by
  induction depth generalizing p with
  | zero => cases found
  | succ depth ih =>
    obtain ⟨o, here, rest⟩ := Option.bind_eq_some_iff.1 found
    obtain ⟨o', there, own, next⟩ := answers p o here
    simp only [find, there, Option.bind_some, own, next]
    cases has : o.found L k with
    | some g => simpa only [has] using rest
    | none =>
      simp only [has] at rest ⊢
      cases below : o.proto with
      | none => simpa only [below] using rest
      | some q =>
        simp only [below] at rest ⊢
        exact ih rest

theorem property_put (o : Object O N V) (v : V) (other : k' ≠ k) (name : k' ≠ .name L.name) :
    (o.put k v).property L k' = o.property L k' := by
  unfold Object.property Object.put
  simp only [Function.update_of_ne other, if_neg name]
  cases o.length <;> rfl

theorem found_put (o : Object O N V) (v : V) (other : k' ≠ k) (name : k' ≠ .name L.name) :
    (o.put k v).found L k' = o.found L k' := by
  unfold Object.found
  rw [property_put o v other name]
  rfl

theorem found_put_same (o : Object O N V) (v : V) (name : o.length.isSome = true → k ≠ .name L.name) :
    (o.put k v).found L k = some (.value v) := by
  have here : (o.put k v).property L k = some (.data v true) := by
    have own : (o.put k v).own k = some (.data v true) := Function.update_self k _ o.own
    have length : (o.put k v).length = o.length.map (·.holding k) := rfl
    unfold Object.property
    rw [length, own]
    cases array : o.length with
    | none => rfl
    | some l => exact if_neg (name (by rw [array]; rfl))
  unfold Object.found
  rw [here]
  rfl

theorem stored_put {p : O} {v : V} {o' : Object O N V} (written : Writes L st p k v (.stored o')) :
    ∃ o, st p = some o ∧ o' = o.put k v ∧ (o.length.isSome = true → k ≠ .name L.name) := by
  obtain ⟨depth, written⟩ := written
  obtain ⟨o, here, rest⟩ := Option.bind_eq_some_iff.1 written
  have added : ∀ g, o.create k v g = .stored o' → o' = o.put k v := by
    intro g made
    cases g with
    | refused => cases made
    | code => cases made
    | granted =>
      cases grown : o.add k v with
      | none =>
        simp only [Object.create, grown] at made
        cases made
      | some o'' =>
        simp only [Object.create, grown] at made
        cases made
        exact (Option.some.inj (Option.ite_none_right_eq_some.1 grown).2).symm
  have put : o' = o.put k v ∧ ¬ (o.length.isSome && k = .name L.name) = true := by
    cases has : o.assign L k v with
    | none =>
      simp only [has] at rest
      obtain ⟨g, -, made⟩ := Option.map_eq_some_iff.1 rest
      refine ⟨added g made, fun special => ?_⟩
      rw [Object.assign, if_pos special] at has
      cases has
    | some r =>
      simp only [has] at rest
      cases rest
      unfold Object.assign at has
      split at has
      · split at has <;> cases has
      next ordinary =>
        refine ⟨?_, ordinary⟩
        split at has
        · cases has
          rfl
        · cases has
        · cases has
        · cases has
        · split at has
          · cases has
          · cases has
  refine ⟨o, here, put.1, fun array name => put.2 ?_⟩
  rw [array, name]
  simp

theorem permission_congr (allows : ∀ q o, st q = some o → ∃ o', st' q = some o' ∧
    o'.permits L k = o.permits L k ∧ o'.proto = o.proto) {depth : Nat} {q : Option O} {g : Permission}
    (given : permission L st k depth q = some g) : permission L st' k depth q = some g := by
  induction depth generalizing q with
  | zero => cases q <;> exact given
  | succ depth ih =>
    cases q with
    | none => exact given
    | some q =>
      obtain ⟨o, here, rest⟩ := Option.bind_eq_some_iff.1 given
      obtain ⟨o', there, own, next⟩ := allows q o here
      simp only [permission, there, Option.bind_some, own, next]
      cases has : o.permits L k with
      | some g => simpa only [has] using rest
      | none =>
        simp only [has] at rest ⊢
        exact ih rest

theorem finds_length {p : O} {o : Object O N V} {l : ArrayLength} (here : st p = some o)
    (array : o.length = some l) : Finds L st p (.name L.name) (.value (L.number l.value)) := by
  refine ⟨1, ?_⟩
  simp only [find, here, Option.bind_some, Object.found, Object.property, array, if_true,
    Property.read]

theorem length_put {o : Object O N V} (plain : o.length = none) (k : Key N) (v : V) :
    (o.put k v).length = none := by
  change o.length.map _ = none
  rw [plain, Option.map_none]

theorem dense_put {o : Object O N V} (sparse : o.dense = false) (k : Key N) (v : V) :
    (o.put k v).dense = false := by
  change o.staysDense k = false
  unfold Object.staysDense
  cases k <;> simp [sparse]

def Written.storing (o' : Object O N V) : Written O N V → Written O N V
  | .stored _ => .stored o'
  | .refused => .refused
  | .code => .code

theorem assign_put {o : Object O N V} (plain : o.length = none) (other : k ≠ k') (u v : V) :
    (o.put k' u).assign L k v = (o.assign L k v).map (Written.storing ((o.put k' u).put k v)) := by
  have own : (o.put k' u).own k = o.own k := Function.update_of_ne other _ o.own
  have exotic : (o.put k' u).exotic = o.exotic := rfl
  unfold Object.assign
  simp only [length_put plain, plain, Option.isSome_none, Bool.false_and, Bool.false_eq_true, if_false,
    own, exotic]
  cases o.own k with
  | some x =>
    cases x with
    | data old writable => cases writable <;> rfl
    | accessor getter setter => cases setter <;> rfl
  | none => cases o.exotic <;> rfl

variable [DecidableEq O]

theorem finds_stored {p : O} {v : V} {o' : Object O N V}
    (written : Writes L st p k v (.stored o')) :
    Finds L (Function.update st p (some o')) p k (.value v) := by
  obtain ⟨o, -, rfl, name⟩ := stored_put written
  refine ⟨1, ?_⟩
  simp only [find, Function.update_self, Option.bind_some, found_put_same o v name]

theorem finds_other {p q : O} {v : V} {o' : Object O N V} {f : Found V}
    (written : Writes L st p k v (.stored o')) (other : k' ≠ k) (name : k' ≠ .name L.name)
    (found : Finds L st q k' f) : Finds L (Function.update st p (some o')) q k' f := by
  obtain ⟨o, here, rfl, -⟩ := stored_put written
  obtain ⟨depth, found⟩ := found
  refine ⟨depth, find_congr ?_ found⟩
  intro q x has
  by_cases same : q = p
  · subst same
    cases here.symm.trans has
    exact ⟨_, Function.update_self q _ st, found_put o v other name, rfl⟩
  · exact ⟨x, by rw [Function.update_of_ne same, has], rfl, rfl⟩

theorem permission_put {p : O} {o : Object O N V} (here : st p = some o) (plain : o.length = none)
    (sparse : o.dense = false) (other : k ≠ k') (u : V) {depth : Nat} {q : Option O} {g : Permission}
    (given : permission L st k depth q = some g) :
    permission L (Function.update st p (some (o.put k' u))) k depth q = some g := by
  apply permission_congr _ given
  intro q x there
  by_cases same : q = p
  · subst same
    cases here.symm.trans there
    refine ⟨_, Function.update_self q _ st, ?_, rfl⟩
    have property : (o.put k' u).property L k = o.property L k := by
      unfold Object.property
      rw [length_put plain, plain]
      exact Function.update_of_ne other _ o.own
    unfold Object.permits
    rw [property, dense_put sparse, sparse]
    rfl
  · exact ⟨x, by rw [Function.update_of_ne same, there], rfl, rfl⟩

theorem writes_beside {p : O} {o : Object O N V} (here : st p = some o) (plain : o.length = none)
    (sparse : o.dense = false) (other : k ≠ k') (u : V) {v : V} {r : Written O N V}
    (written : Writes L st p k v r) :
    Writes L (Function.update st p (some (o.put k' u))) p k v (r.storing ((o.put k' u).put k v)) := by
  obtain ⟨depth, written⟩ := written
  refine ⟨depth, ?_⟩
  simp only [write, here, Option.bind_some] at written
  simp only [write, Function.update_self, Option.bind_some, assign_put plain other]
  cases assigned : o.assign L k v with
  | some r' =>
    simp only [assigned] at written
    cases written
    rfl
  | none =>
    simp only [assigned] at written
    obtain ⟨g, given, rfl⟩ := Option.map_eq_some_iff.1 written
    have proto : (o.put k' u).proto = o.proto := rfl
    simp only [Option.map_none, proto, permission_put here plain sparse other u given, Option.map_some]
    cases g with
    | refused => rfl
    | code => rfl
    | granted =>
      have extensible : (o.put k' u).extensible = o.extensible := rfl
      simp only [Object.create, Object.add, extensible, length_put plain, plain, Option.all_none,
        Bool.and_true]
      cases o.extensible <;> rfl

theorem writes_put {p : O} {o : Object O N V} (here : st p = some o) (plain : o.length = none)
    (sparse : o.dense = false) (takes : ∀ v, ∃ o', Writes L st p k v (.stored o')) (u : V) :
    ∀ v, ∃ o', Writes L (Function.update st p (some (o.put k' u))) p k v (.stored o') := by
  intro v
  by_cases same : k = k'
  · subst same
    refine ⟨(o.put k u).put k v, 0, ?_⟩
    have own : (o.put k u).own k = some (.data u true) := Function.update_self k _ o.own
    simp [write, Object.assign, length_put plain, own]
  · obtain ⟨o', written⟩ := takes v
    exact ⟨_, writes_beside here plain sparse same u written⟩

end Laws

section Keeping
variable {st st' st'' : Store O N V} {roots : O → Prop}

/-- What the roots have as prototypes, directly or further up. -/
inductive Reached (st : Store O N V) (roots : O → Prop) : O → Prop where
  | root {p : O} (held : roots p) : Reached st roots p
  | proto {p q : O} {o : Object O N V} (below : Reached st roots p) (here : st p = some o)
      (next : o.proto = some q) : Reached st roots q

/-- Every object reached from the roots is as it was. -/
def Keeps (roots : O → Prop) (st st' : Store O N V) : Prop :=
  ∀ p o, Reached st roots p → st p = some o → st' p = some o

theorem Keeps.refl (st : Store O N V) : Keeps roots st st := fun _ _ _ here => here

theorem Keeps.reached (keeps : Keeps roots st st') {p : O} (reached : Reached st roots p) :
    Reached st' roots p := by
  induction reached with
  | root held => exact .root held
  | proto below here next ih =>
    rename_i p q o
    exact .proto ih (keeps p o below here) next

theorem Keeps.trans (one : Keeps roots st st') (two : Keeps roots st' st'') : Keeps roots st st'' :=
  fun p o reached here => two p o (one.reached reached) (one p o reached here)

theorem keeps_new [DecidableEq O] {p : O} (o : Object O N V) (empty : st p = none) :
    Keeps roots st (Function.update st p (some o)) := by
  intro q x reached here
  by_cases same : q = p
  · subst same
    cases empty.symm.trans here
  · rw [Function.update_of_ne same, here]

def Fresh (roots : O → Prop) (st : Store O N V) (p : O) : Prop :=
  ∀ q o, Reached st roots q → st q = some o → q ≠ p

theorem fresh_empty {p : O} (keeps : Keeps roots st st') (empty : st' p = none) :
    Fresh roots st p := by
  intro q o reached here same
  subst same
  cases empty.symm.trans (keeps q o reached here)

theorem keeps_beside [DecidableEq O] {p : O} (keeps : Keeps roots st st') (fresh : Fresh roots st p)
    (x : Option (Object O N V)) : Keeps roots st (Function.update st' p x) := by
  intro q o reached here
  rw [Function.update_of_ne (fresh q o reached here)]
  exact keeps q o reached here

theorem reached_update [DecidableEq O] {p q : O} {o x : Object O N V} (here : st p = some o)
    (same : x.proto = o.proto) (reached : Reached (Function.update st p (some x)) roots q) :
    Reached st roots q := by
  induction reached with
  | root held => exact .root held
  | proto below there next ih =>
    rename_i q r y
    by_cases at_p : q = p
    · subst at_p
      rw [Function.update_self] at there
      cases there
      exact .proto ih here (same.symm.trans next)
    · rw [Function.update_of_ne at_p] at there
      exact .proto ih there next

theorem keeps_update [DecidableEq O] {p : O} {o x : Object O N V} (keeps : Keeps roots st st')
    (here : st p = some o) (same : x.proto = o.proto) :
    Keeps roots (Function.update st p (some x)) (Function.update st' p (some x)) := by
  intro q y reached there
  by_cases at_p : q = p
  · subst at_p
    rw [Function.update_self] at there ⊢
    exact there
  · rw [Function.update_of_ne at_p] at there ⊢
    exact keeps q y (reached_update here same reached) there

def Refers (roots : O → Prop) (st : Store O N V) (v : V) : Prop :=
  ∃ p o k b, Reached st roots p ∧ st p = some o ∧ o.own k = some (.data v b)

theorem Keeps.refers (keeps : Keeps roots st st') {v : V} (refers : Refers roots st v) :
    Refers roots st' v := by
  obtain ⟨p, o, k, b, reached, here, own⟩ := refers
  exact ⟨p, o, k, b, keeps.reached reached, keeps p o reached here, own⟩

theorem refers_put [DecidableEq O] [DecidableEq N] {p : O} {o : Object O N V} {k : Key N} {v u : V}
    (here : st p = some o) (refers : Refers roots (Function.update st p (some (o.put k v))) u) :
    u = v ∨ Refers roots st u := by
  obtain ⟨q, x, k', b, reached, there, own⟩ := refers
  replace reached := @reached_update _ _ _ _ _ _ _ _ _ (o.put k v) here rfl reached
  by_cases at_p : q = p
  · subst at_p
    rw [Function.update_self] at there
    cases there
    replace own : Function.update o.own k (some (.data v true)) k' = some (.data u b) := own
    by_cases same : k' = k
    · subst same
      rw [Function.update_self] at own
      cases own
      exact Or.inl rfl
    · rw [Function.update_of_ne same] at own
      exact Or.inr ⟨q, o, k', b, reached, here, own⟩
  · rw [Function.update_of_ne at_p] at there
    exact Or.inr ⟨q, x, k', b, reached, there, own⟩

variable [DecidableEq N] {L : LengthSpelling N V} {k : Key N}

theorem find_keeps (keeps : Keeps roots st st') {depth : Nat} {p : O} {f : Found V}
    (reached : Reached st roots p) (found : find L st k depth p = some f) :
    find L st' k depth p = some f := by
  induction depth generalizing p with
  | zero => cases found
  | succ depth ih =>
    obtain ⟨o, here, rest⟩ := Option.bind_eq_some_iff.1 found
    simp only [find, keeps p o reached here, Option.bind_some]
    cases own : o.found L k with
    | some f => simpa only [own] using rest
    | none =>
      cases next : o.proto with
      | none => simpa only [own, next] using rest
      | some q =>
        simp only [own, next] at rest
        exact ih (.proto reached here next) rest

theorem permission_keeps (keeps : Keeps roots st st') {depth : Nat} {q : Option O} {g : Permission}
    (reached : ∀ p, q = some p → Reached st roots p) (given : permission L st k depth q = some g) :
    permission L st' k depth q = some g := by
  induction depth generalizing q with
  | zero => cases q <;> exact given
  | succ depth ih =>
    cases q with
    | none => exact given
    | some q =>
      obtain ⟨o, here, rest⟩ := Option.bind_eq_some_iff.1 given
      simp only [permission, keeps q o (reached q rfl) here, Option.bind_some]
      cases own : o.permits L k with
      | some g => simpa only [own] using rest
      | none =>
        simp only [own] at rest
        exact ih (fun p next => .proto (reached q rfl) here next) rest

theorem write_keeps (keeps : Keeps roots st st') {depth : Nat} {p : O} {v : V} {r : Written O N V}
    (reached : Reached st roots p) (written : write L st p k v depth = some r) :
    write L st' p k v depth = some r := by
  obtain ⟨o, here, rest⟩ := Option.bind_eq_some_iff.1 written
  simp only [write, keeps p o reached here, Option.bind_some]
  cases own : o.assign L k v with
  | some r => simpa only [own] using rest
  | none =>
    simp only [own] at rest
    obtain ⟨g, given, same⟩ := Option.map_eq_some_iff.1 rest
    rw [permission_keeps keeps (fun q next => .proto reached here next) given]
    exact congrArg some same

theorem refers_of_find {depth : Nat} {p : O} {v : V} (reached : Reached st roots p)
    (name : k ≠ .name L.name) (found : find L st k depth p = some (.value v)) :
    Refers roots st v := by
  induction depth generalizing p with
  | zero => cases found
  | succ depth ih =>
    obtain ⟨o, here, rest⟩ := Option.bind_eq_some_iff.1 found
    have property : o.property L k = o.own k := by
      unfold Object.property
      cases o.length with
      | none => rfl
      | some l => exact if_neg name
    unfold Object.found at rest
    rw [property] at rest
    cases own : o.own k with
    | some x =>
      cases x with
      | data u b =>
        simp only [own] at rest
        cases rest
        exact ⟨p, o, k, b, reached, here, own⟩
      | accessor getter setter =>
        simp only [own] at rest
        cases getter <;> cases rest
    | none =>
      simp only [own] at rest
      cases exotic : o.exotic with
      | true =>
        simp only [exotic, if_true] at rest
        cases rest
      | false =>
        simp only [exotic, Bool.false_eq_true, if_false] at rest
        cases next : o.proto with
        | none =>
          simp only [next] at rest
          cases rest
        | some q =>
          simp only [next] at rest
          exact ih (.proto reached here next) rest

theorem finds_keeps (keeps : Keeps roots st st') {p : O} (held : roots p) {f : Found V}
    (found : Finds L st p k f) : Finds L st' p k f := by
  obtain ⟨depth, found⟩ := found
  exact ⟨depth, find_keeps keeps (.root held) found⟩

theorem writes_keeps (keeps : Keeps roots st st') {p : O} (held : roots p) {v : V}
    {r : Written O N V} (written : Writes L st p k v r) : Writes L st' p k v r := by
  obtain ⟨depth, written⟩ := written
  exact ⟨depth, write_keeps keeps (.root held) written⟩

end Keeping
end ScriptObjects
