import QuickJSBridge.ArrayElements
import QuickJSBridge.HandedValues

/- Writing a value of a type that toJSValue does not support. JS_EXCEPTION stands for the value
   then, and is written like any other. -/
namespace QuickJSBridge
open HostProgram ReentrantMachine ScriptObjects

section Writes

inductive Place where
  | property (name : JavaString)
  | element (index : Int32)

def Place.key (atoms : JSString → Bool) : Place → Option PropertyKey
  | .property name => propertyKey atoms (ModifiedUtf8.encode name)
  | .element index => some (indexKey index.toUInt32)

def Place.aside (spared : JSString → Prop) : Place → Prop
  | .property name => Aside spared (ModifiedUtf8.encode name)
  | .element _ => True

def Place.writing : Place → Addr → JSValue → EngineCall
  | .property name, p, v => .setPropertyStr (.object p) (ModifiedUtf8.encode name) v
  | .element index, p, v => .setPropertyUint32 (.object p) index.toUInt32 v

def Place.call : Place → Option JavaObject → Option JavaObject → ApiCall
  | .property name, receiver, value => .setProperty receiver (some name) value
  | .element index, receiver, value => .set receiver value index

def Place.op : Place → Addr → Option JavaObject → NativeOp
  | .property name, p, value => .setProperty p (some name) value
  | .element index, p, value => .set p value index

theorem call_other (place : Place) (r : Receiver) (className : String) :
    (place.call r.handle (some (.other className))).program =
      Java.native (place.op r.pointer (some (.other className))) := by
  cases place <;> rfl

theorem key_alone {S : Setting} {s s' : World × Objects} {place : Place} (alone : LeftAlone S s s')
    (aside : place.aside S.spared) : place.key s'.2.atoms = place.key s.2.atoms := by
  cases place with
  | property name => exact propertyKey_alone alone aside
  | element index => rfl

theorem access_writing (atoms : JSString → Bool) (place : Place) (p : Addr) (v : JSValue) :
    (place.writing p v).access atoms = (place.key atoms).map fun k => .set p k v := by
  cases place <;> rfl

theorem exec_rejected {roots : Addr → Prop} {spared : JSString → Prop} {t : ThreadId} (place : Place)
    {p : Addr} {className : String}
    {s u : World × Objects} {h : History (World × Objects) Prim ForeignCall Answer} {d : Answer}
    (run : Exec (stored roots) ((place.op p (some (.other className))).program t) s h (.returned d) u) :
    d = .unit ∧ ∃ v before b, Untouched roots spared s v ∧ v.2 = s.2 ∧
      v.1.javaException = some (unsupportedType className) ∧
      h = before ++ [.call (.engine (place.writing p .exception)) b u] ∧
      (stored roots).reply (.engine (place.writing p .exception)) v b u ∧
      ∀ st, (stored roots).reply (.engine (place.writing p .exception)) v b (u.1, st) →
        Exec (stored roots) ((place.op p (some (.other className))).program t) s
          (before ++ [.call (.engine (place.writing p .exception)) b (u.1, st)]) (.returned .unit)
            (u.1, st) := by
  cases place with
  | property name =>
    obtain ⟨a, v, rest, reads, first, rfl⟩ := exec_prim run
    obtain ⟨b, x, later, throws, second, rfl⟩ := exec_prim first
    obtain ⟨c, y, last, reply, ending, rfl⟩ := exec_enter second
    obtain ⟨rfl, same, rfl⟩ := exec_ret ending
    cases same
    have answer : .text (some (ModifiedUtf8.encode name)) = a :=
      congrArg Prod.fst (Option.some.inj (acts_stored reads).1)
    subst answer
    have thrown : { v.1 with javaException := some (unsupportedType className) } = x.1 :=
      congrArg Prod.snd (Option.some.inj (acts_stored throws).1)
    have pending : x.1.javaException = some (unsupportedType className) := by rw [← thrown]
    have still : x.2 = s.2 := (acts_stored throws).2.trans (acts_stored reads).2
    refine ⟨rfl, x, [_, _], c, (untouched_acts reads nofun).trans (untouched_acts throws nofun), still,
      pending, rfl, reply, ?_⟩
    exact fun st again => .prim reads (.prim throws (.enter again (.ret _ _)))
  | element index =>
    obtain ⟨a, v, rest, throws, first, rfl⟩ := exec_prim run
    obtain ⟨b, x, later, keeps, second, rfl⟩ := exec_prim first
    obtain ⟨c, y, last, reply, ending, rfl⟩ := exec_enter second
    obtain ⟨rfl, same, rfl⟩ := exec_ret ending
    cases same
    have thrown : { s.1 with javaException := some (unsupportedType className) } = v.1 :=
      congrArg Prod.snd (Option.some.inj (acts_stored throws).1)
    have kept : v.1 = x.1 := congrArg Prod.snd (Option.some.inj (acts_stored keeps).1)
    have pending : x.1.javaException = some (unsupportedType className) := by rw [← kept, ← thrown]
    have still : x.2 = s.2 := (acts_stored keeps).2.trans (acts_stored throws).2
    refine ⟨rfl, x, [_, _], c, (untouched_acts throws nofun).trans (untouched_acts keeps nofun), still,
      pending, rfl, reply, ?_⟩
    exact fun st again => .prim throws (.prim keeps (.enter again (.ret _ _)))

def LeavesAlone (o : ObjectData) : Written Addr JSString JSValue → Prop
  | .stored o' => ∀ k, o'.property arrayLength k = o.property arrayLength k
  | .refused => True
  | .code => False

def Refuses (st : Objects) (p : Addr) (k : PropertyKey) : Prop :=
  ∃ o x, st.store p = some o ∧ Writes arrayLength st.store p k .exception x ∧ LeavesAlone o x

/-- A value of a type that is not supported is written to an object, and the call comes back. -/
structure RejectedWrite where
  setting : Setting
  receiver : Receiver
  held : setting.roots receiver.pointer
  start : World × Objects
  object : ObjectData
  here : start.2.store receiver.pointer = some object
  place : Place
  aside : place.aside setting.spared
  /-- The prototypes come to an end. -/
  chain : ∀ k, place.key start.2.atoms = some k →
    ∃ x, Writes arrayLength start.2.store receiver.pointer k .exception x
  className : String
  returns : ∃ a u, Returns setting (place.call receiver.handle (some (.other className))) start a u

namespace RejectedWrite
variable {r : RejectedWrite} {a : Answer} {u : World × Objects}

def pointer (r : RejectedWrite) : Addr := r.receiver.pointer
def call (r : RejectedWrite) : ApiCall := r.place.call r.receiver.handle (some (.other r.className))
def writing (r : RejectedWrite) : EngineCall := r.place.writing r.receiver.pointer .exception

/-- The call throws, and the properties are what they were. -/
def Rejected (r : RejectedWrite) : Prop :=
  ∀ a u, Returns r.setting r.call r.start a u → a = .javaThrow (unsupportedType r.className) ∧
    ∃ o, u.2.store r.pointer = some o ∧ ∀ k, o.property arrayLength k = r.object.property arrayLength k

def Refused (r : RejectedWrite) : Prop :=
  ∃ k, r.place.key r.start.2.atoms = some k ∧ Refuses r.start.2 r.pointer k

theorem returns_writing (returns : Returns r.setting r.call r.start a u) :
    ∃ t b v, Untouched r.setting.roots r.setting.spared r.start t ∧
      r.place.key t.2.atoms = r.place.key r.start.2.atoms ∧
      t.1.javaException = some (unsupportedType r.className) ∧
      (stored r.setting.roots).reply (.engine r.writing) t b v ∧ a = seen .unit v.1 ∧
      u = ({ v.1 with javaException := none }, v.2) ∧
      ∀ st, (stored r.setting.roots).reply (.engine r.writing) t b (v.1, st) →
        Returns r.setting r.call r.start a (u.1, st) := by
  obtain ⟨w, st, h, d, v, others, untouched, clear, run, steady, rfl, rfl⟩ :=
    (returns_native (call_other _ _ _)).1 returns
  obtain ⟨rfl, t, before, b, kept, still, pending, rfl, reply, again⟩ := exec_rejected r.place run
  have key : r.place.key t.2.atoms = r.place.key r.start.2.atoms := by
    rw [still]
    exact key_alone untouched r.aside
  refine ⟨t, b, v, untouched.toUntouched.trans kept, key, pending, reply, rfl, rfl, ?_⟩
  intro st' reply'
  refine (returns_native (call_other _ _ _)).2
    ⟨w, st, _, .unit, (v.1, st'), others, untouched, clear, again st' reply', ?_, rfl, rfl⟩
  intro item member
  rcases List.mem_append.1 member with early | last
  · exact steady item (List.mem_append_left _ early)
  · rw [List.mem_singleton.1 last]
    exact steady (.call (.engine r.writing) b v) (List.mem_append_right _ (List.mem_singleton_self _))

theorem refused_of_rejected (rejected : r.Rejected) : r.Refused := by
  obtain ⟨a, u, returns⟩ := r.returns
  obtain ⟨t, b, v, untouched, key, -, reply, rfl, rfl, again⟩ := returns_writing returns
  have keeps : ∀ st, (stored r.setting.roots).reply (.engine r.writing) t b (v.1, st) →
      ∃ o, st.store r.pointer = some o ∧
      ∀ k, o.property arrayLength k = r.object.property arrayLength k :=
    fun st reply => (rejected _ _ (again st reply)).2
  have uncontrolled : ¬ ∀ st, engineReply r.setting.roots r.writing t b (v.1, st) := by
    intro any
    obtain ⟨o, gone, -⟩ := keeps .empty (any _)
    cases gone
  have step : engineReply r.setting.roots r.writing t b v := reply
  have access : r.writing.access t.2.atoms = (r.place.key r.start.2.atoms).map fun k =>
      .set r.pointer k .exception := by
    rw [← key]
    exact access_writing t.2.atoms r.place r.pointer .exception
  unfold engineReply at step uncontrolled
  cases named : r.place.key r.start.2.atoms with
  | none =>
    rw [named, Option.map_none] at access
    simp only [access] at step uncontrolled
    have runsJS : r.writing.runsJS = true := by
      unfold writing Place.writing
      cases r.place <;> rfl
    refine (uncontrolled fun st => ⟨step.1, fun noJS => ?_⟩).elim
    cases runsJS.symm.trans noJS
  | some k =>
    rw [named, Option.map_some] at access
    simp only [access] at step uncontrolled
    obtain ⟨x, before⟩ := r.chain k named
    have there := writes_keeps untouched.objects r.held before
    refine ⟨k, named, r.object, x, r.here, before, ?_⟩
    cases x with
    | stored o =>
      obtain ⟨-, after, -⟩ := @answered_set _ r.setting.spared _ _ _ _ _ _ _ _ access there reply
      have now := after.objects r.pointer o (.root r.held) (Function.update_self _ _ _)
      obtain ⟨o', here, same⟩ := keeps v.2 reply
      cases now.symm.trans here
      exact same
    | refused => trivial
    | code =>
      rcases step with ⟨⟨y, writes, plain⟩, -⟩ | ⟨code, step⟩
      · exact plain (writes_unique writes there)
      · exact uncontrolled fun st => Or.inr ⟨code, step⟩

theorem rejected_of_refused (refused : r.Refused) : r.Rejected := by
  intro a u returns
  obtain ⟨k, named, o, x, here, writes, leaves⟩ := refused
  cases here.symm.trans r.here
  obtain ⟨t, b, v, untouched, key, pending, reply, rfl, rfl, -⟩ := returns_writing returns
  have access : r.writing.access t.2.atoms = some (.set r.pointer k .exception) := by
    rw [writing, access_writing, key, named]
    rfl
  have there := writes_keeps untouched.objects r.held writes
  have thrown : v.1.agenda = t.1.agenda → seen .unit v.1 = .javaThrow (unsupportedType r.className) := by
    intro agenda
    have same : v.1.javaException = t.1.javaException := congrArg Agenda.javaException agenda
    unfold seen
    rw [same, pending]
  cases x with
  | stored o =>
    obtain ⟨-, after, agenda⟩ := @answered_set _ r.setting.spared _ _ _ _ _ _ _ _ access there reply
    have here := after.objects r.pointer o (.root r.held) (Function.update_self _ _ _)
    exact ⟨thrown agenda, o, here, leaves⟩
  | refused =>
    obtain ⟨-, after, agenda⟩ := answered_refused access there reply
    have here := (untouched.trans after).objects r.pointer r.object (.root r.held) r.here
    exact ⟨thrown agenda, r.object, here, fun _ => rfl⟩
  | code => exact leaves.elim

end RejectedWrite
end Writes

section Scenes

def Access.lands (st : Objects) : Access → Objects → Prop
  | .get _ _, st' => st'.store = st.store
  | .set p k v, st' =>
    (∃ o, Writes arrayLength st.store p k v (.stored o) ∧ st'.store = Function.update st.store p (some o)) ∨
    (Writes arrayLength st.store p k v .refused ∧ st'.store = st.store)

def Holds (st : Objects) (v : JSValue) : Prop := Refers (fun _ => True) st.store v

/-- The engine, and the scripts it runs, store values they have made, JS_EXCEPTION never being
    one, values they were handed, and values they find. -/
def Stocks (handed : List JSValue) (st st' : Objects) : Prop :=
  ∀ v, Holds st' v → v ≠ .exception ∨ v ∈ handed ∨ Holds st v

/-- The machine, the objects of the engine, and the values native code has handed to scripts. -/
structure Scene where
  config : BridgeConfig
  objects : Objects
  handed : List JSValue

theorem stores_set {atoms : JSString → Bool} {e : EngineCall} {p : Addr} {k : PropertyKey} {v : JSValue}
    (writes : e.access atoms = some (.set p k v)) : e.stores = some v := by
  unfold EngineCall.access at writes
  split at writes
  · obtain ⟨k', -, same⟩ := Option.map_eq_some_iff.1 writes
    cases same
  · cases writes
  · obtain ⟨k', -, same⟩ := Option.map_eq_some_iff.1 writes
    cases same
    rfl
  · cases writes
    rfl
  · cases writes

theorem held_of_found {o : ObjectData} {k : PropertyKey} {v : JSValue}
    (answers : o.found arrayLength k = some (.value v)) :
    (∃ b, o.own k = some (.data v b)) ∨ ∃ n, newUint32 n = v := by
  have data : ∃ b, o.property arrayLength k = some (.data v b) := by
    unfold Object.found at answers
    cases has : o.property arrayLength k with
    | none =>
      simp only [has] at answers
      split at answers <;> cases answers
    | some x =>
      simp only [has, Option.some.injEq] at answers
      cases x with
      | data u b =>
        cases answers
        exact ⟨b, rfl⟩
      | accessor getter setter => cases getter <;> cases answers
  obtain ⟨b, data⟩ := data
  unfold Object.property at data
  split at data
  · exact Or.inl ⟨b, data⟩
  · split at data
    · cases data
      exact Or.inr ⟨_, rfl⟩
    · exact Or.inl ⟨b, data⟩

namespace Scene

/-- What an action does to the objects and to the values handed over. A callback that answers
    JS_EXCEPTION throws, and no value comes of it. -/
def Shifts (s s' : Scene) : Action Prim ForeignCall Answer BridgeOp Event → Prop
  | .depart (.engine e) =>
    match e.access s.objects.atoms with
    | some x =>
      (x.plain s.objects ∧ x.lands s.objects s'.objects ∧ s'.handed = s.handed) ∨
      (¬ x.plain s.objects ∧ s'.objects = s.objects ∧ s'.handed = e.hands ++ s.handed)
    | none => s'.objects = s.objects ∧ s'.handed = e.hands ++ s.handed
  | .finish (.jsFnCallback _ _ _) a => s'.objects = s.objects ∧
      s'.handed = if a.toValue.isException then s.handed else a.toValue :: s.handed
  | _ => s'.objects = s.objects ∧ s'.handed = s.handed

inductive Step (s : Scene) : Scene → Prop where
  | action {s' : Scene} {l : BridgeLabel} {m : BridgeMoment} (named : moment l s.config = some m)
      (taken : bridge.step l s.config = some s'.config) (shifts : Shifts s s' m.action) : Step s s'
  | engine {st : Objects} {e : EngineCall} (outside : s.config.control = .outside)
      (inside : context s.config.stack = some (.engine e)) (stocks : Stocks s.handed s.objects st) :
      Step s ⟨s.config, st, s.handed⟩

def Discreet (s : Scene) : Prop :=
  ∀ e next, s.config.control = .native (.enter (.engine e) next) → e.stores = some .exception →
    ∃ p k, e.access s.objects.atoms = some (.set p k .exception) ∧ Refuses s.objects p k

/-- The engine makes the first objects, and from there on no write of JS_EXCEPTION is taken. -/
inductive Reached : Scene → Prop where
  | initial {st : Objects} (globalObj : Addr) (jvm : List UInt8 → JavaString)
      (made : Stocks [] .empty st) : Reached ⟨QuickJSBridge.initial globalObj jvm, st, []⟩
  | step {s s' : Scene} (before : Reached s) (discreet : s.Discreet) (step : s.Step s') : Reached s'

/-- A property that is read is absent, an ordinary value, or left to code. -/
def Readable (s : Scene) : Prop :=
  ∀ p k f, Finds arrayLength s.objects.store p k f → f ≠ .value .exception

structure Clean (s : Scene) : Prop where
  guarded : Bridge.GuardedConfig Prim.canAnswer ForeignCall.careful s.config
  handed : .exception ∉ s.handed
  objects : ¬ Holds s.objects .exception

variable {s s' : Scene}

theorem readable_of_clean (clean : s.Clean) : s.Readable := by
  rintro p k f ⟨depth, found⟩ rfl
  induction depth generalizing p with
  | zero => cases found
  | succ depth ih =>
    obtain ⟨o, here, rest⟩ := Option.bind_eq_some_iff.1 found
    cases answers : o.found arrayLength k with
    | some g =>
      simp only [answers] at rest
      cases rest
      rcases held_of_found answers with ⟨b, own⟩ | ⟨n, number⟩
      · exact clean.objects ⟨p, o, k, b, .root trivial, here, own⟩
      · exact newUint32_sound n number
    | none =>
      simp only [answers] at rest
      cases next : o.proto with
      | none => simp [next] at rest
      | some q =>
        simp only [next] at rest
        exact ih q rest

theorem refused_stays {p : Addr} {k : PropertyKey} {o : ObjectData} (readable : s.Readable)
    (refuses : Refuses s.objects p k) : ¬ Writes arrayLength s.objects.store p k .exception (.stored o) := by
  intro stores
  obtain ⟨x, r, here, writes, leaves⟩ := refuses
  cases writes_unique writes stores
  obtain ⟨y, there, rfl, name⟩ := stored_put stores
  cases here.symm.trans there
  have answers : x.found arrayLength k = some (.value .exception) := by
    have same : (x.put k .exception).found arrayLength k = x.found arrayLength k := by
      unfold Object.found
      rw [leaves k]
      rfl
    rw [← same, found_put_same x .exception name]
  have found : Finds arrayLength s.objects.store p k (.value .exception) := by
    refine ⟨1, ?_⟩
    simp only [find, here, Option.bind_some, answers]
  exact readable p k _ found rfl

theorem shifts_clean {l : BridgeLabel} {m : BridgeMoment} (clean : s.Clean) (discreet : s.Discreet)
    (named : moment l s.config = some m) (shifts : Shifts s s' m.action) :
    .exception ∉ s'.handed ∧ ¬ Holds s'.objects .exception := by
  have same : ∀ {given : List JSValue}, .exception ∉ given → s'.objects.store = s.objects.store →
      s'.handed = given → .exception ∉ s'.handed ∧ ¬ Holds s'.objects .exception := by
    intro given sound objects handed
    unfold Holds
    rw [objects, handed]
    exact ⟨sound, clean.objects⟩
  have still : ∀ {given : List JSValue}, .exception ∉ given → s'.objects = s.objects ∧ s'.handed = given →
      .exception ∉ s'.handed ∧ ¬ Holds s'.objects .exception :=
    fun sound shifts => same sound (congrArg Objects.store shifts.1) shifts.2
  cases acts : m.action with
  | depart e =>
    rw [acts] at shifts
    cases e with
    | java f args => exact still clean.handed shifts
    | engine e =>
      obtain ⟨next, leaves⟩ := Bridge.moment_depart named acts
      have careful := Bridge.departure_guarded clean.guarded leaves
      -- a value that is written is handed over only where the object leaves the write to code
      have sound : (∀ x, e.access s.objects.atoms = some x → ¬ x.plain s.objects) →
        .exception ∉ e.hands ++ s.handed := by
        intro code member
        rcases List.mem_append.1 member with given | before
        · obtain ⟨p, k, access, o, x, -, writes, alone⟩ := discreet e next leaves (careful given)
          apply code _ access
          refine ⟨x, writes, ?_⟩
          rintro rfl
          exact alone
        · exact clean.handed before
      cases access : e.access s.objects.atoms with
      | none =>
        simp only [Shifts, access] at shifts
        apply still (sound _) shifts
        intro x some
        cases access.symm.trans some
      | some x =>
        simp only [Shifts, access] at shifts
        rcases shifts with ⟨-, lands, handed⟩ | ⟨code, shifts⟩
        · cases x with
          | get p k => exact same clean.handed lands handed
          | set p k v =>
            rcases lands with ⟨o, stores, objects⟩ | ⟨-, objects⟩
            · refine ⟨by rw [handed]; exact clean.handed, ?_⟩
              unfold Holds
              rw [objects]
              intro holds
              obtain ⟨x, here, rfl, -⟩ := stored_put stores
              rcases refers_put here holds with rfl | before
              · obtain ⟨p', k', same, refuses⟩ := discreet e next leaves (stores_set access)
                cases access.symm.trans same
                exact refused_stays (readable_of_clean clean) refuses stores
              · exact clean.objects before
            · exact same clean.handed objects handed
        · apply still (sound _) shifts
          intro y some
          cases access.symm.trans some
          exact code
  | finish o a =>
    rw [acts] at shifts
    cases o with
    | native t => exact still clean.handed shifts
    | jsFnCallback func thisObj argv =>
      apply still _ shifts
      split
      · exact clean.handed
      next ordinary =>
        intro member
        rcases List.mem_cons.1 member with same | before
        · exact sound_of_not ordinary same.symm
        · exact clean.handed before
  | _ =>
    rw [acts] at shifts
    exact still clean.handed shifts

theorem step_clean (clean : s.Clean) (discreet : s.Discreet) (step : s.Step s') : s'.Clean := by
  cases step with
  | action named taken shifts =>
    obtain ⟨handed, objects⟩ := shifts_clean clean discreet named shifts
    refine ⟨?_, handed, objects⟩
    exact Bridge.step_guarded (fun _ _ _ _ acts => canAnswer_exec acts)
      (fun _ _ _ _ _ starts => careful_start starts) clean.guarded taken
  | engine outside inside stocks =>
    refine ⟨clean.guarded, clean.handed, fun holds => ?_⟩
    rcases stocks .exception holds with ordinary | given | before
    · exact ordinary rfl
    · exact clean.handed given
    · exact clean.objects before

theorem reached_clean (reached : s.Reached) : s.Clean := by
  induction reached with
  | initial globalObj jvm made =>
    refine ⟨trivial, List.not_mem_nil, fun holds => ?_⟩
    rcases made .exception holds with ordinary | given | ⟨p, o, k, b, -, here, -⟩
    · exact ordinary rfl
    · cases given
    · cases here
  | step before discreet step ih => exact step_clean ih discreet step

end Scene
end Scenes

/-- A write of an unsupported value throws and changes nothing exactly if the object refuses
    JS_EXCEPTION for the property, and as long as every object that is written to does, no property
    is ever read as JS_EXCEPTION. -/
theorem rejected_writes (r : RejectedWrite) {s : Scene} (reached : s.Reached) :
    (r.Rejected ↔ r.Refused) ∧ s.Readable := by
  constructor
  · constructor
    · exact RejectedWrite.refused_of_rejected
    · exact RejectedWrite.rejected_of_refused
  · exact Scene.readable_of_clean (Scene.reached_clean reached)

def bareObject (extensible : Bool) : ObjectData := { emptyObject with extensible := extensible }

def bareStore (extensible : Bool) : Objects := .one 2 (bareObject extensible) fun _ => rfl

theorem bare_written (extensible : Bool) (k : PropertyKey) (v : JSValue) :
    Writes arrayLength (bareStore extensible).store 2 k v ((bareObject extensible).create k v .granted) := by
  refine ⟨0, ?_⟩
  simp [write, bareStore, Objects.one, bareObject, emptyObject, Object.assign, permission]

def bareWorld : World := (World.fresh 1 fun _ => []).setCell 2 (some ⟨1, some .plain, 1, 0, none⟩)

theorem date_returns (extensible : Bool) : ∃ a u, Returns ⟨0, fun _ => True, fun _ => False, fun _ => True⟩
    ((Place.property [0x64]).call (some (.handle 0 .jsObject 2 0)) (some (.other "java.util.Date")))
    (bareWorld, bareStore extensible) a u := by
  let w : World := { bareWorld with javaException := some (unsupportedType "java.util.Date") }
  let e : EngineCall := .setPropertyStr (.object 2) (ascii "d") .exception
  let k : PropertyKey := .name (.ofUnits (latin "d"))
  have written := bare_written extensible k .exception
  have same : ∀ st : Objects, st.Stay (fun _ => True) st := fun st => ⟨.refl _, fun _ there => Or.inl there⟩
  have answers : ∃ n st, (stored fun _ => True).reply (.engine e) (w, bareStore extensible) (.int n)
    (w, st) := by
    have silent : ∀ n, SilentReply (.engine e) w (.int n) w := fun n => ⟨_, _, [], rfl, rfl, rfl, rfl⟩
    have functions : ∀ st, FunctionsKept (fun _ => True) e (w, bareStore extensible) (w, st) :=
      fun st q _ => rfl
    cases extensible with
    | true =>
      exact ⟨1, _, Or.inl ⟨⟨_, written, nofun⟩, silent 1, Or.inl ⟨_, written, rfl, same _⟩, functions _⟩⟩
    | false =>
      exact ⟨-1, _, Or.inl ⟨⟨_, written, nofun⟩, silent (-1), Or.inr ⟨written, rfl, same _⟩, functions _⟩⟩
  obtain ⟨n, st, reply⟩ := answers
  have writing : Can (stored fun _ => True)
      ((NativeOp.setProperty 2 (some [0x64]) (some (.other "java.util.Date"))).program 0) []
      (bareWorld, bareStore extensible) fun b _ u => b = .unit ∧ u = (w, st) :=
    can_prim rfl (can_prim rfl (can_enter reply (can_ret ⟨rfl, rfl⟩)))
  obtain ⟨b, h, _, run, rfl, rfl⟩ := writing
  have sees : StoredReply ⟨0, fun _ => True, fun _ => False, fun _ => True⟩
      (.setProperty 2 (some [0x64]) (some (.other "java.util.Date")))
      (bareWorld, bareStore extensible) (.javaThrow (unsupportedType "java.util.Date")) (bareWorld, st) :=
    ⟨_, _, h, _, _, ⟨[], [], [], rfl⟩, .refl _, rfl, run, fun _ _ => trivial, rfl, rfl⟩
  exact ⟨_, _, (returns_native rfl).2 sees⟩

def dateWrite (extensible : Bool) : RejectedWrite where
  setting := ⟨0, fun _ => True, fun _ => False, fun _ => True⟩
  receiver := ⟨0, .jsObject, 2, 0⟩
  held := trivial
  start := (bareWorld, bareStore extensible)
  object := bareObject extensible
  here := rfl
  place := .property [0x64]
  aside := Or.inl rfl
  chain := fun k _ => ⟨_, bare_written extensible k .exception⟩
  className := "java.util.Date"
  returns := date_returns extensible

theorem date_refused : (dateWrite false).Rejected ∧
    Scene.Readable ⟨initial 1 fun _ => [], .empty, []⟩ := by
  have reached : Scene.Reached ⟨initial 1 fun _ => [], .empty, []⟩ :=
    .initial 1 _ fun _ holds => Or.inr (Or.inr holds)
  obtain ⟨exactly, readable⟩ := rejected_writes (dateWrite false) reached
  refine ⟨exactly.2 ⟨_, rfl, bareObject false, .refused, rfl, ?_, trivial⟩, readable⟩
  exact bare_written false _ .exception

/-- An object that takes properties has JS_EXCEPTION for one afterwards. -/
theorem date_stored : ¬ ∀ r : RejectedWrite, r.Rejected := by
  intro rejected
  obtain ⟨k, -, o, x, here, writes, alone⟩ := RejectedWrite.refused_of_rejected (rejected (dateWrite true))
  cases here
  cases writes_unique writes (bare_written true k .exception)
  have own : ((bareObject true).put k .exception).own k = some (.data .exception true) :=
    Function.update_self k _ _
  cases own.symm.trans (alone k)

end QuickJSBridge
