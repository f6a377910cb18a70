import QuickJSBridge.ScriptObjects
import QuickJSBridge.SharedRegistry
import QuickJSBridge.HelperHandles

/- The objects of the engine beside the state of the bridge. An access that comes to no code is
   answered by the objects and does to them what the property functions of quickjs.c do. Code,
   where it is run, may do anything to them. -/
namespace QuickJSBridge
open HostProgram ReentrantMachine ScriptObjects

abbrev PropertyKey := Key JSString
abbrev ObjectData := Object Addr JSString JSValue

/-- The objects of the engine, and the texts there are atoms of. Names of properties are among
    them. -/
structure Objects where
  store : Store Addr JSString JSValue
  atoms : JSString → Bool
  named : ∀ p o n, store p = some o → (o.own (.name n)).isSome = true → atoms n = true

section Keys

/-- The loop of `is_num_string`: digits of a number of 32 bits. -/
def numberOfDigits : List UInt16 → Nat → Option Nat
  | [], n => some n
  | c :: rest, n =>
    if 0x30 ≤ c.toNat && c.toNat ≤ 0x39 && n * 10 + (c.toNat - 0x30) < 0x100000000 then
      numberOfDigits rest (n * 10 + (c.toNat - 0x30))
    else none

/-- `is_num_string`, which takes no leading zeros. -/
def isNumString (s : JSString) : Option Nat :=
  if s.units = [] then none
  else if s.units = [0x30] then some 0
  else if s.units.head? = some 0x30 then none
  else numberOfDigits s.units 0

/-- `JS_NewAtomStr`, with the atoms that are array indices told apart. -/
def newAtom (s : JSString) : PropertyKey :=
  match isNumString s with
  | some n => if n = 0xFFFFFFFF then .name s else .index n
  | none => .name s

def latinText (bytes : List UInt8) : JSString := .ofUnits (bytes.map fun b => .ofNat b.toNat)

def startsWithDigit (bytes : List UInt8) : Bool :=
  bytes.head?.any fun c => 0x30 ≤ c.toNat && c.toNat ≤ 0x39

def decodedKey (name : List UInt8) : Option PropertyKey := (newStringLen name).map newAtom

/-- `JS_NewAtomLen`. An atom whose units are the bytes themselves comes before the decoding. -/
def propertyKey (atoms : JSString → Bool) (name : List UInt8) : Option PropertyKey :=
  if !startsWithDigit name && atoms (latinText name) then some (.name (latinText name))
  else decodedKey name

def indexKey (i : UInt32) : PropertyKey :=
  if i.toNat = 0xFFFFFFFF then .name (.ofUnits (latin "4294967295")) else .index i.toNat

/-- `JS_NewUint32`. -/
def newUint32 (n : Nat) : JSValue :=
  if n ≤ 0x7FFFFFFF then .int (.ofNat n) else .float64 (.ofInt n)

def arrayLength : LengthSpelling JSString JSValue where
  name := .ofUnits (latin "length")
  number := newUint32
  bars v := v.isException

example : propertyKey (fun _ => true) (ascii "10") = some (indexKey 10) := by decide
example : propertyKey (fun _ => false) (ascii "010") = some (.name (.ofUnits (latin "010"))) := by decide
example : propertyKey (fun _ => false) [0xC3, 0xA9] = some (.name (.ofUnits [0xE9])) := by decide
example : propertyKey (fun _ => true) [0xC3, 0xA9] = some (.name (.ofUnits [0xC3, 0xA9])) := by decide

def Objects.empty : Objects where
  store := fun _ => none
  atoms := fun _ => false
  named := by
    intro p o n here
    cases here

def Objects.one (p : Addr) (o : ObjectData) (blank : ∀ k, o.own k = none) : Objects where
  store q := if q = p then some o else none
  atoms := fun _ => false
  named := by
    intro q x n here own
    obtain ⟨-, same⟩ := Option.ite_none_right_eq_some.1 here
    cases same
    cases own.symm.trans (congrArg Option.isSome (blank _))

def Objects.update (st : Objects) (p : Addr) (o : ObjectData) : Objects where
  store := Function.update st.store p (some o)
  atoms n := st.atoms n || (o.own (.name n)).isSome
  named := by
    intro q x n here own
    by_cases same : q = p
    · subst same
      rw [Function.update_self] at here
      cases here
      rw [own, Bool.or_true]
    · rw [Function.update_of_ne same] at here
      rw [st.named q x n here own, Bool.true_or]

def Objects.NewAtoms (st st' : Objects) (texts : JSString → Prop) : Prop :=
  ∀ n, st'.atoms n = true → st.atoms n = true ∨ texts n

end Keys

section Accesses

inductive Access where
  | get (p : Addr) (k : PropertyKey)
  | set (p : Addr) (k : PropertyKey) (v : JSValue)

def EngineCall.access (atoms : JSString → Bool) : EngineCall → Option Access
  | .getPropertyStr (.object p) name => (propertyKey atoms name).map (.get p)
  | .getPropertyUint32 (.object p) index => some (.get p (indexKey index))
  | .setPropertyStr (.object p) name v => (propertyKey atoms name).map fun k => .set p k v
  | .setPropertyUint32 (.object p) index v => some (.set p (indexKey index) v)
  | _ => none

def Access.plain (st : Objects) : Access → Prop
  | .get p k => ∃ f, Finds arrayLength st.store p k f ∧ f ≠ .code
  | .set p k v => ∃ r, Writes arrayLength st.store p k v r ∧ r ≠ .code

/-- What `JS_GetPropertyInternal` returns where it runs no code. -/
def foundValue : Found JSValue → JSValue
  | .value v => v
  | _ => .undefined

def Objects.Stay (st : Objects) (roots : Addr → Prop) (st' : Objects) : Prop :=
  Keeps roots st.store st'.store ∧ st.NewAtoms st' fun _ => False

/-- The answer of an access that runs no code, and what it does. What the roots have on to is
    not touched otherwise. The atom of a name is given back unless a property has it now. -/
def Access.effect (roots : Addr → Prop) (st : Objects) : Access → Answer → Objects → Prop
  | .get p k, a, st' =>
    st.Stay roots st' ∧ ∃ f, Finds arrayLength st.store p k f ∧ a = .value (foundValue f)
  | .set p k v, a, st' =>
    (∃ o, Writes arrayLength st.store p k v (.stored o) ∧ a = .int 1 ∧
      (st.update p o).Stay roots st') ∨
    (Writes arrayLength st.store p k v .refused ∧ a = .int (-1) ∧ st.Stay roots st')

def ObjectData.isEmpty (o : ObjectData) : Prop :=
  o.own = (fun _ => none) ∧ o.length = none ∧ o.extensible = true ∧ o.exotic = false ∧ o.dense = false

/-- The texts a call may make atoms of when no JS code runs: those of a script that is compiled,
    read or imported, of the names in a JSON text, and the name of a callback function. -/
def EngineCall.makes (atoms : JSString → Bool) : EngineCall → JSString → Prop
  | .newCustomContext, _ | .eval _ _ _, _ | .setImportMeta _, _ | .resolveModule _, _
  | .readObject _, _ => True
  | .parseJSON bytes, _ => bytes ≠ ascii "{}"
  | .defineName _ name, n => propertyKey atoms name = some (.name n)
  | _, _ => False

/-- What the other calls do in which no JS code can run: objects are made where there are none,
    and a function is given its name. -/
def sidelineEffect (roots : Addr → Prop) (st : Objects) (e : EngineCall) (a : Answer) (st' : Objects) : Prop :=
  (match e, a with
    | .newCallbackFunction, .value (.object f) =>
      ∃ st₁ o, Keeps roots st.store st₁ ∧ st₁ f = none ∧ ¬ Refers roots st₁ (.object f) ∧
        st'.store = Function.update st₁ f (some o)
    | .parseJSON bytes, .value (.object p) =>
      ∃ st₁ o, Keeps roots st.store st₁ ∧ st₁ p = none ∧ (bytes = ascii "{}" → ObjectData.isEmpty o) ∧
        Keeps roots (Function.update st₁ p (some o)) st'.store
    | .defineName (.object f) _, _ => ∃ o, Keeps roots (Function.update st.store f o) st'.store
    | _, _ => Keeps roots st.store st'.store) ∧
  st.NewAtoms st' (e.makes st.atoms)

end Accesses

section Replies

/-- Steps taken while no JS code runs: the engine counts references and makes allocations, and
    other threads go on with their Java code. -/
def silentLabel : BridgeLabel → Bool
  | .event (.engine (.dup _)) => true
  | .event (.engine e) => e.withoutJS
  | .event _ => true
  | _ => false

def SilentReply (e : ForeignCall) (w : World) (a : Answer) (w' : World) : Prop :=
  ∃ s₁ s₂ labels, bridge.depart e w = some s₁ ∧ labels.all silentLabel = true ∧
    bridge.run labels ⟨s₁, .outside, [.pending e .ret]⟩ = some ⟨s₂, .outside, [.pending e .ret]⟩ ∧
    bridge.deliver e a s₂ = some w'

def EngineCall.borrows (e : EngineCall) (q : Addr) : Prop :=
  .object q ∈ e.operands ∧ e.consumed ≠ some (.object q)

/-- A function keeps its callback as long as somebody holds on to it: the caller, or the roots,
    if they refer to it afterwards and did so before or are given it. -/
def FunctionsKept (roots : Addr → Prop) (e : EngineCall) (s s' : World × Objects) : Prop :=
  ∀ q, e.borrows q ∨ (Refers roots s'.2.store (.object q) ∧
      (Refers roots s.2.store (.object q) ∨ e.consumed = some (.object q))) →
    s'.1.registry.callbackAt q = s.1.registry.callbackAt q

def engineReply (roots : Addr → Prop) (e : EngineCall) (s : World × Objects) (a : Answer)
    (s' : World × Objects) : Prop :=
  match e.access s.2.atoms with
  | some x =>
    (x.plain s.2 ∧ SilentReply (.engine e) s.1 a s'.1 ∧ x.effect roots s.2 a s'.2 ∧
      FunctionsKept roots e s s') ∨
    (¬ x.plain s.2 ∧ bridge.Reply (.engine e) s.1 a s'.1)
  | none => bridge.Reply (.engine e) s.1 a s'.1 ∧ (e.runsJS = false →
      sidelineEffect roots s.2 e a s'.2 ∧ FunctionsKept roots e s s')

/-- The bridge together with the objects. The roots are addresses whose objects somebody holds
    on to. -/
def stored (roots : Addr → Prop) : Meaning (World × Objects) Prim ForeignCall Answer where
  exec c s := (exec c s.1).map fun x => (x.1, (x.2, s.2))
  reply
    | .engine e, s, a, s' => engineReply roots e s a s'
    | .java f args, s, a, s' => bridge.Reply (.java f args) s.1 a s'.1

end Replies

section Projection
variable {roots : Addr → Prop} {w w' : World}

theorem reply_of_silent {e : ForeignCall} {a : Answer} (reply : SilentReply e w a w') :
    bridge.Reply e w a w' := by
  obtain ⟨s₁, s₂, labels, left, -, ran, back⟩ := reply
  exact ⟨s₁, s₂, labels, left, ran, back⟩

theorem agenda_silent {ev : Event} {e : EngineCall} (silent : silentLabel (.event ev) = true)
    (acts : event ev (some (.engine e)) w = some w') : w'.agenda = w.agenda := by
  cases ev with
  | engine v =>
    replace acts := of_ite_some acts
    cases v with
    | alloc p cls => exact agenda_alloc acts
    | drop p => exact agenda_drop acts
    | throwValue v => exact agenda_throwValue acts
    | dup p =>
      obtain ⟨c, -, rfl⟩ := Option.map_eq_some_iff.1 acts
      rfl
    | _ => cases silent
  | spawn t call =>
    cases of_ite_some acts
    rfl
  | javaStep t =>
    replace acts := of_ite_some acts
    split at acts
    next c next frames _ =>
      cases acts
      cases c <;> rfl
    next => cases acts
  | retire t =>
    replace acts := of_ite_some acts
    split at acts
    next =>
      cases acts
      rfl
    next => cases acts

theorem agenda_silentReply {e : EngineCall} {a : Answer} (reply : SilentReply (.engine e) w a w') :
    w'.agenda = w.agenda := by
  obtain ⟨s₁, s₂, labels, left, silent, ran, back⟩ := reply
  have during : ∀ labels s, labels.all silentLabel = true → bridge.run labels
      ⟨s, .outside, [.pending (.engine e) .ret]⟩ = some ⟨s₂, .outside, [.pending (.engine e) .ret]⟩ →
      s₂.agenda = s.agenda := by
    intro labels
    induction labels with
    | nil =>
      intro s _ ran
      cases ran
      rfl
    | cons l labels ih =>
      intro s silent ran
      obtain ⟨here, later⟩ := Bool.and_eq_true_iff.1 silent
      obtain ⟨c, taken, rest⟩ := Bridge.run_cons ran
      cases l with
      | event v =>
        obtain ⟨s', acts, rfl⟩ := Option.map_eq_some_iff.1 taken
        replace acts : event v (some (.engine e)) s = some s' := acts
        exact (ih s' later rest).trans (agenda_silent here acts)
      | _ => cases here
  replace left : depart (.engine e) w = some s₁ := left
  replace back : deliver (.engine e) a s₂ = some w' := back
  exact (agenda_engine back).trans ((during labels s₁ silent ran).trans (agenda_depart left))

theorem reply_stored {e : ForeignCall} {s s' : World × Objects} {a : Answer}
    (reply : (stored roots).reply e s a s') : bridge.Reply e s.1 a s'.1 := by
  cases e with
  | java f args => exact reply
  | engine e =>
    replace reply : engineReply roots e s a s' := reply
    unfold engineReply at reply
    split at reply
    · rcases reply with ⟨-, silent, -, -⟩ | ⟨-, reply⟩
      · exact reply_of_silent silent
      · exact reply
    · exact reply.1

theorem exec_stored {R : Type} {p : Program R} {s s' : World × Objects}
    {h : History (World × Objects) Prim ForeignCall Answer} {out : Outcome R}
    (run : Exec (stored roots) p s h out s') :
    Exec bridge.meaning p s.1 (h.map (Item.map Prod.fst)) out s'.1 := by
  apply exec_map Prod.fst _ _ run
  · intro c s a s' acts
    obtain ⟨⟨b, u⟩, done, same⟩ := Option.map_eq_some_iff.1 acts
    cases same
    exact done
  · exact fun e s a s' reply => reply_stored reply

end Projection

section Keeping
variable {roots : Addr → Prop} {spared : JSString → Prop}

/-- The objects reached from the roots are as they were, the functions they refer to still have
    their callbacks, and the texts that are to be spared have no new atoms. -/
structure Untouched (roots : Addr → Prop) (spared : JSString → Prop) (s s' : World × Objects) : Prop where
  objects : Keeps roots s.2.store s'.2.store
  functions : ∀ q, Refers roots s.2.store (.object q) →
    s'.1.registry.callbackAt q = s.1.registry.callbackAt q
  atoms : ∀ n, spared n → s'.2.atoms n = true → s.2.atoms n = true

theorem Untouched.refl (s : World × Objects) : Untouched roots spared s s :=
  ⟨.refl _, fun _ _ => rfl, fun _ _ there => there⟩

theorem Untouched.trans {s t u : World × Objects} (one : Untouched roots spared s t)
    (two : Untouched roots spared t u) : Untouched roots spared s u := by
  constructor
  · exact one.objects.trans two.objects
  · intro q refers
    rw [two.functions q (one.objects.refers refers), one.functions q refers]
  · exact fun n aside there => one.atoms n aside (two.atoms n aside there)

theorem untouched_of_callbacks {s s' : World × Objects} (same : s'.2 = s.2)
    (callbacks : s'.1.registry.callbackAt = s.1.registry.callbackAt) : Untouched roots spared s s' := by
  constructor
  · rw [same]
    exact .refl _
  · intro q _
    rw [callbacks]
  · intro n _ there
    rwa [same] at there

theorem untouched_of_functions {e : EngineCall} {s s' : World × Objects}
    (keeps : Keeps roots s.2.store s'.2.store) (functions : FunctionsKept roots e s s')
    (atoms : ∀ n, spared n → s'.2.atoms n = true → s.2.atoms n = true) : Untouched roots spared s s' := by
  constructor
  · exact keeps
  · intro q refers
    exact functions q (Or.inr ⟨keeps.refers refers, Or.inl refers⟩)
  · exact atoms

theorem untouched_of_stay {e : EngineCall} {s s' : World × Objects} (stay : s.2.Stay roots s'.2)
    (functions : FunctionsKept roots e s s') : Untouched roots spared s s' := by
  apply untouched_of_functions stay.1 functions
  intro n _ there
  exact (stay.2 n there).resolve_right id

theorem callbacks_exec {c : Prim} {a : Answer} {w w' : World} (acts : exec c w = some (a, w'))
    (other : ∀ v id source, c ≠ .setFuncCallback v id source) :
    w'.registry.callbackAt = w.registry.callbackAt := by
  rw [registry_exec acts]
  cases c with
  | setFuncCallback v id source => exact absurd rfl (other v id source)
  | _ => rfl

end Keeping

section Answers
variable {roots : Addr → Prop} {spared : JSString → Prop} {s s' : World × Objects} {e : EngineCall}
  {a : Answer} {p : Addr} {k : PropertyKey}

theorem answered_get {f : Found JSValue} (reads : e.access s.2.atoms = some (.get p k))
    (found : Finds arrayLength s.2.store p k f) (ordinary : f ≠ .code)
    (reply : (stored roots).reply (.engine e) s a s') :
    a = .value (foundValue f) ∧ Untouched roots spared s s' ∧ s'.1.agenda = s.1.agenda := by
  replace reply : engineReply roots e s a s' := reply
  simp only [engineReply, reads] at reply
  rcases reply with ⟨-, silent, ⟨stay, g, also, rfl⟩, functions⟩ | ⟨code, -⟩
  · cases finds_unique found also
    exact ⟨rfl, untouched_of_stay stay functions, agenda_silentReply silent⟩
  · exact absurd ⟨f, found, ordinary⟩ code

theorem consumed_set {atoms : JSString → Bool} {v : JSValue} (writes : e.access atoms = some (.set p k v)) :
    e.consumed = some v := by
  unfold EngineCall.access at writes
  split at writes
  · obtain ⟨k', -, same⟩ := Option.map_eq_some_iff.1 writes
    cases same
  · cases writes
  · obtain ⟨k', -, same⟩ := Option.map_eq_some_iff.1 writes
    cases same
    rfl
  · cases writes
    rfl
  · cases writes

theorem answered_set {v : JSValue} {o : ObjectData} (writes : e.access s.2.atoms = some (.set p k v))
    (stores : Writes arrayLength s.2.store p k v (.stored o))
    (reply : (stored roots).reply (.engine e) s a s') :
    a = .int 1 ∧ Untouched roots spared (s.1, s.2.update p o) s' ∧ s'.1.agenda = s.1.agenda := by
  replace reply : engineReply roots e s a s' := reply
  simp only [engineReply, writes] at reply
  rcases reply with ⟨-, silent, effect, functions⟩ | ⟨code, -⟩
  · rcases effect with ⟨o', also, rfl, stay⟩ | ⟨refused, -⟩
    · cases writes_unique stores also
      refine ⟨rfl, ⟨stay.1, ?_, ?_⟩, agenda_silentReply silent⟩
      · intro q refers
        obtain ⟨x, here, rfl, -⟩ := stored_put stores
        apply functions q (Or.inr ⟨stay.1.refers refers, ?_⟩)
        rcases refers_put here refers with given | before
        · right
          rw [consumed_set writes, given]
        · exact Or.inl before
      · exact fun n _ there => (stay.2 n there).resolve_right id
    · cases writes_unique stores refused
  · exact absurd ⟨_, stores, nofun⟩ code

theorem answered_refused {v : JSValue} (writes : e.access s.2.atoms = some (.set p k v))
    (refused : Writes arrayLength s.2.store p k v .refused)
    (reply : (stored roots).reply (.engine e) s a s') :
    a = .int (-1) ∧ Untouched roots spared s s' ∧ s'.1.agenda = s.1.agenda := by
  replace reply : engineReply roots e s a s' := reply
  simp only [engineReply, writes] at reply
  rcases reply with ⟨-, silent, effect, functions⟩ | ⟨code, -⟩
  · rcases effect with ⟨o', stores, -⟩ | ⟨-, rfl, stay⟩
    · cases writes_unique refused stores
    · exact ⟨rfl, untouched_of_stay stay functions, agenda_silentReply silent⟩
  · exact absurd ⟨_, refused, nofun⟩ code

theorem answered_aside (other : ∀ atoms, e.access atoms = none) (noJS : e.runsJS = false)
    (plain : ∀ st a st', sidelineEffect roots st e a st' → st.Stay roots st')
    (reply : (stored roots).reply (.engine e) s a s') : Untouched roots spared s s' := by
  replace reply : engineReply roots e s a s' := reply
  simp only [engineReply, other] at reply
  obtain ⟨effect, functions⟩ := reply.2 noJS
  exact untouched_of_stay (plain _ _ _ effect) functions

theorem acts_stored {c : Prim} (acts : (stored roots).exec c s = some (a, s')) :
    exec c s.1 = some (a, s'.1) ∧ s'.2 = s.2 := by
  obtain ⟨⟨b, w⟩, done, same⟩ := Option.map_eq_some_iff.1 acts
  cases same
  exact ⟨done, rfl⟩

theorem untouched_acts {c : Prim} (acts : (stored roots).exec c s = some (a, s'))
    (other : ∀ v id source, c ≠ .setFuncCallback v id source) : Untouched roots spared s s' := by
  obtain ⟨done, same⟩ := acts_stored acts
  exact untouched_of_callbacks same (callbacks_exec done other)

end Answers

section Naming
variable {roots : Addr → Prop} {spared : JSString → Prop} {s s' : World × Objects} {st : Objects}
  {name : List UInt8} {k : PropertyKey}

def NamedBy (atoms : JSString → Bool) (name : List UInt8) (k : PropertyKey) : Prop :=
  (startsWithDigit name = false ∧ atoms (latinText name) = true ∧ k = .name (latinText name)) ∨
    decodedKey name = some k

theorem namedBy_key {atoms : JSString → Bool} (named : propertyKey atoms name = some k) :
    NamedBy atoms name k := by
  unfold propertyKey at named
  split at named
  next known =>
    cases named
    obtain ⟨letter, known⟩ := Bool.and_eq_true_iff.1 known
    exact Or.inl ⟨by simpa using letter, known, rfl⟩
  next => exact Or.inr named

theorem key_of_decoded (decodes : (decodedKey name).isSome = true) (atoms : JSString → Bool) :
    ∃ k, propertyKey atoms name = some k := by
  unfold propertyKey
  split
  · exact ⟨_, rfl⟩
  · exact Option.isSome_iff_exists.1 decodes

def Aside (spared : JSString → Prop) (name : List UInt8) : Prop :=
  decodedKey name = some (.name (latinText name)) ∨ spared (latinText name)

theorem NamedBy.before (named : NamedBy s'.2.atoms name k) (untouched : Untouched roots spared s s')
    (aside : Aside spared name) : NamedBy s.2.atoms name k := by
  rcases named with ⟨letter, known, same⟩ | decoded
  · rcases aside with plain | aside
    · exact Or.inr (same ▸ plain)
    · exact Or.inl ⟨letter, untouched.atoms _ aside known, same⟩
  · exact Or.inr decoded

def HeldName (roots : Addr → Prop) (st : Objects) (n : JSString) : Prop :=
  ∃ p o, Reached st.store roots p ∧ st.store p = some o ∧ (o.own (.name n)).isSome = true

theorem HeldName.atom {n : JSString} (held : HeldName roots st n) : st.atoms n = true := by
  obtain ⟨p, o, -, here, own⟩ := held
  exact st.named p o n here own

theorem HeldName.later {n : JSString} {st' : Objects} (held : HeldName roots st n)
    (keeps : Keeps roots st.store st'.store) : HeldName roots st' n := by
  obtain ⟨p, o, reached, here, own⟩ := held
  exact ⟨p, o, keeps.reached reached, keeps p o reached here, own⟩

/-- The name stays with this key: the atom of its bytes, which a property that is held has, or
    the decoded text, if there is no atom of the bytes or it makes no difference. -/
def Settled (roots : Addr → Prop) (st : Objects) (name : List UInt8) (k : PropertyKey) : Prop :=
  (startsWithDigit name = false ∧ k = .name (latinText name) ∧ HeldName roots st (latinText name)) ∨
  (decodedKey name = some k ∧ ∀ key, NamedBy st.atoms name key → key = k)

theorem Settled.key (settled : Settled roots st name k) : propertyKey st.atoms name = some k := by
  rcases settled with ⟨letter, rfl, held⟩ | ⟨decoded, only⟩
  · unfold propertyKey
    rw [if_pos (by simp [letter, held.atom])]
  · obtain ⟨key, named⟩ := key_of_decoded (by rw [decoded]; rfl) st.atoms
    rw [named, only key (namedBy_key named)]

theorem Settled.later (settled : Settled roots s.2 name k) (untouched : Untouched roots spared s s')
    (aside : Aside spared name) : Settled roots s'.2 name k := by
  rcases settled with ⟨letter, same, held⟩ | ⟨decoded, only⟩
  · exact Or.inl ⟨letter, same, held.later untouched.objects⟩
  · exact Or.inr ⟨decoded, fun key named => only key (named.before untouched aside)⟩

theorem settled_stored {p : Addr} {x : ObjectData} {v : JSValue} (held : roots p)
    (named : propertyKey st.atoms name = some k) (here : st.store p = some x) :
    Settled roots (st.update p (x.put k v)) name k := by
  have own : (x.put k v).own k = some (.data v true) := Function.update_self k _ x.own
  have there : (st.update p (x.put k v)).store p = some (x.put k v) := Function.update_self p _ st.store
  by_cases latin : startsWithDigit name = false ∧ k = .name (latinText name)
  · obtain ⟨letter, rfl⟩ := latin
    exact Or.inl ⟨letter, rfl, p, _, .root held, there, by rw [own]; rfl⟩
  · have decoded : (!startsWithDigit name && st.atoms (latinText name)) = false ∧ decodedKey name = some k := by
      unfold propertyKey at named
      split at named
      next known =>
        cases named
        obtain ⟨letter, -⟩ := Bool.and_eq_true_iff.1 known
        exact absurd ⟨by simpa using letter, rfl⟩ latin
      next unknown => exact ⟨Bool.eq_false_iff.2 unknown, named⟩
    obtain ⟨unknown, decoded⟩ := decoded
    refine Or.inr ⟨decoded, ?_⟩
    rintro key (⟨letter, known, rfl⟩ | same)
    · rw [letter] at unknown
      have other : k ≠ .name (latinText name) := fun same => latin ⟨letter, same⟩
      replace known : (st.atoms (latinText name) || ((x.put k v).own (.name (latinText name))).isSome) = true :=
        known
      have old : (x.put k v).own (.name (latinText name)) = x.own (.name (latinText name)) :=
        Function.update_of_ne (Ne.symm other) _ x.own
      rw [show st.atoms (latinText name) = false by simpa using unknown, Bool.false_or, old] at known
      have absent := st.named p x _ here known
      rw [absent] at unknown
      cases unknown
    · exact Option.some.inj (same.symm.trans decoded)

end Naming

end QuickJSBridge
