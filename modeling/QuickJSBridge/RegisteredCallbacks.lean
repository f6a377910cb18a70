import QuickJSBridge.AwaitedCallbacks

/- The registry over whole runs. As long as no step takes an entry away that a function, or an
   operation under way, still needs, every function made from a callback leads back to it. -/
namespace QuickJSBridge
open HostProgram ReentrantMachine

section Runs
variable {c c' : BridgeConfig} {l : BridgeLabel} {m : BridgeMoment} {f : JSCallFunction}

theorem answersHash_exec {c : Prim} {w w' : World} {a : Answer} (acts : exec c w = some (a, w')) :
    c.answersHash a := by
  cases c with
  | hashCode env f =>
    cases acts
    rfl
  | _ => trivial

theorem storing_other {c : Prim} (noStore : NoStore c.kind) : ¬ (storing f).uses c := by
  rintro ⟨v, id, rfl⟩
  cases noStore

theorem start_spares {o : BridgeOp} {ctx : Option ForeignCall} {w w' : World} {p : Program Answer}
    (starts : start o ctx w = some (w', p))
    (spared : ∀ t, ∀ frame ∈ w.tasks t, frame.Spares (passing f)) : p.Spares (storing f) fun _ => True := by
  have fine : ∀ g, g ≠ f → ∀ v, ¬ (storing f).uses (.setFuncCallback v g.hashCode g) := by
    rintro g other v ⟨v', id, same⟩
    cases same
    exact other rfl
  cases o with
  | native t =>
    simp only [start, startNative] at starts
    split at starts
    next op next frames tasks =>
      split at starts
      next => cases starts
      next =>
        cases of_ite_some starts
        refine secures_program rfl (fun _ => storing_other) (fun _ => id) (fun g v given => ?_) t
        refine fine g ?_ v
        rintro rfl
        rcases spared t _ (tasks ▸ List.mem_cons_self) with impossible | ⟨unused, -⟩
        · exact impossible
        · exact unused given
    next => cases starts
  | jsFnCallback func thisObj argv =>
    simp only [start, startCallback] at starts
    split at starts
    next =>
      cases of_ite_some starts
      refine Prog.spares_after ?_ fun _ => trivial
      refine secures_jsFnCallback rfl (fun _ => storing_other) (fun _ => id) (fun g => ?_) _ _ _
      by_cases same : g = f
      · exact Or.inl (congrArg Prim.putCallFunction same)
      · exact Or.inr (fine g same)
    next => cases starts

theorem step_sparesCallback (taken : bridge.step l c = some c') (named : moment l c = some m)
    (spares : SparesCallback c f) (noPut : change m ≠ .put f)
    (noSet : ∀ t jsArray index, m.action ≠ .event (.spawn t (.set jsArray (some (.callFunction f)) index))) :
    SparesCallback c' f := by
  obtain ⟨m', named', same, acts⟩ := Bridge.step_performs taken
  cases named.symm.trans named'
  constructor
  · refine Bridge.step_spared (fun _ _ _ => answersHash_exec) taken spares.1 ?_ (fun _ _ _ => id) ?_
    · rintro q next running rfl
      have puts := (Bridge.moment_running named).1 _ next running
      exact noPut (by simp only [change, puts, primChange])
    · intro o ctx w' p _ starts
      exact start_spares starts spares.2
  · exact perform_spares acts (same ▸ spares.2) noPut noSet

structure Orderly (c : BridgeConfig) : Prop where
  phase : SlotPhase c
  numbered : Bridge.Spared misnumbering c
  ids : ∀ p id f, c.state.registry.callbackAt p = some ⟨id, f⟩ → id = f.hashCode
  registered : c.state.registry.Registered
  awaited : ∀ f, Awaited c f → c.state.callFunctionMap f.hashCode = some f

theorem step_numbered (taken : bridge.step l c = some c') (numbered : Bridge.Spared misnumbering c) :
    Bridge.Spared misnumbering c' := by
  have fine : ∀ (g : JSCallFunction) v, ¬ misnumbering.uses (.setFuncCallback v g.hashCode g) := by
    rintro g v ⟨v', id, f, same, other⟩
    cases same
    exact other rfl
  have other : ∀ c : Prim, NoStore c.kind → ¬ misnumbering.uses c := by
    rintro c noStore ⟨v, id, f, rfl, -⟩
    cases noStore
  refine Bridge.step_spared (fun _ _ _ => answersHash_exec) taken numbered (fun _ _ _ => id)
    (fun _ _ _ => id) fun o ctx w p _ starts => ?_
  cases o with
  | native t =>
    simp only [bridge, start, startNative] at starts
    split at starts
    next =>
      split at starts
      next => cases starts
      next =>
        cases of_ite_some starts
        exact secures_program rfl other (fun _ => id) (fun g v _ => fine g v) t
    next => cases starts
  | jsFnCallback func thisObj argv =>
    simp only [bridge, start, startCallback] at starts
    split at starts
    next =>
      cases of_ite_some starts
      refine Prog.spares_after ?_ fun _ => trivial
      exact secures_jsFnCallback rfl other (fun _ => id) (fun g => Or.inr (fine g)) _ _ _
    next => cases starts

theorem change_store {p : Addr} {object : FuncCallback} (stores : change m = .store p object) :
    ∃ v id f, m.action = .prim (.setFuncCallback v id f) ∧ object = ⟨id, f⟩ := by
  obtain ⟨action, ctx, w⟩ := m
  cases action with
  | prim c =>
    cases c with
    | setFuncCallback v id source =>
      simp only [change, primChange] at stores
      split at stores
      · cases stores
      · cases stores
        exact ⟨v, id, source, rfl, rfl⟩
    | _ => cases stores
  | depart e =>
    have quiet := quiet_depart w e
    rw [show departChange w e = .store p object from stores] at quiet
    cases quiet
  | event ev =>
    have quiet := quiet_event w ev
    rw [show eventChange w ev = .store p object from stores] at quiet
    cases quiet
  | deliver e a => cases stores
  | start o => cases stores
  | finish o a => cases stores

theorem stores_awaited {p : Addr} {object : FuncCallback} (named : moment l c = some m)
    (stores : change m = .store p object) (numbered : Bridge.Spared misnumbering c) :
    object.callbackId = object.source.hashCode ∧ Awaited c object.source := by
  obtain ⟨v, id, g, acts, rfl⟩ : ∃ v id g, m.action = .prim (.setFuncCallback v id g) ∧ object = ⟨id, g⟩ :=
    change_store stores
  obtain ⟨next, running⟩ := moment_prim named acts
  constructor
  · by_contra other
    exact Bridge.spared_unused numbered running (fun secured => secured) ⟨v, id, g, rfl, other⟩
  · intro spares
    refine Bridge.spared_unused spares.1 running ?_ ⟨v, id, rfl⟩
    rintro ⟨⟩

theorem slot_installed (phase : SlotPhase c) (q : Addr) (live : c.state.registry.callbackAt q ≠ none) :
    c.state.registry.slot = some .wrapper := by
  cases phase with
  | constructing blank stage => exact absurd (blank.empty q) live
  | made created slot bounded => exact slot

theorem keeps_of_orderly (orderly : Orderly c) (named : moment l c = some m)
    (allowed : KeepsRegistry c m) : c.state.registry.Keeps (change m) := by
  cases ch : change m with
  | put f =>
    rintro p ⟨id, g⟩ live same
    have number := orderly.ids p id g live
    exact allowed.put f ch g (Or.inl ⟨p, id, live⟩) (number.symm.trans same)
  | store p object =>
    obtain ⟨number, awaited⟩ := stores_awaited named ch orderly.numbered
    have there := orderly.awaited object.source awaited
    rwa [← number] at there
  | destroy p =>
    rintro ⟨id, f⟩ owner q ⟨id', g⟩ apart live
    rw [orderly.ids p id f owner, orderly.ids q id' g live]
    exact (allowed.destroy p id f ch owner).1 q id' g apart live
  | _ => trivial

theorem ids_apply {r : Registry} {ch : Change}
    (ids : ∀ p id f, r.callbackAt p = some ⟨id, f⟩ → id = f.hashCode)
    (stored : ∀ p object, ch = .store p object → object.callbackId = object.source.hashCode) :
    ∀ p id f, (r.apply ch).callbackAt p = some ⟨id, f⟩ → id = f.hashCode := by
  intro p id f live
  cases ch with
  | store q object =>
    by_cases here : p = q
    · subst here
      cases (Function.update_self ..).symm.trans live
      exact stored p _ rfl
    · exact ids p id f ((Function.update_of_ne here ..).symm.trans live)
  | destroy q =>
    simp only [Registry.apply, Registry.callbackAt_destroy] at live
    by_cases here : p = q
    · subst here
      cases (Function.update_self ..).symm.trans live
    · exact ids p id f ((Function.update_of_ne here ..).symm.trans live)
  | _ => exact ids p id f live

theorem map_destroy {r : Registry} {p : Addr} {id : Int32}
    (other : ∀ object, r.callbackAt p = some object → object.callbackId ≠ id) :
    (r.apply (.destroy p)).callFunctionMap id = r.callFunctionMap id := by
  simp only [Registry.apply, Registry.destroy]
  cases owner : r.callbackAt p with
  | none => rfl
  | some object =>
    dsimp only
    split
    · exact Function.update_of_ne (other object owner).symm ..
    · rfl

theorem awaited_kept (orderly : Orderly c) (allowed : KeepsRegistry c m) (awaited : Awaited c f) :
    (c.state.registry.apply (change m)).callFunctionMap f.hashCode = some f := by
  have there := orderly.awaited f awaited
  cases ch : change m with
  | put g =>
    change Function.update c.state.callFunctionMap g.hashCode (some g) f.hashCode = some f
    by_cases same : f.hashCode = g.hashCode
    · rw [same, Function.update_self, allowed.put g ch f (Or.inr awaited) same]
    · rw [Function.update_of_ne same]
      exact there
  | destroy p =>
    refine (map_destroy ?_).trans there
    rintro ⟨id, g⟩ owner same
    replace same : id = f.hashCode := same
    rw [orderly.ids p id g owner] at same
    exact (allowed.destroy p id g ch owner).2 f awaited same.symm
  | _ => exact there

theorem step_orderly (orderly : Orderly c) (taken : bridge.step l c = some c')
    (named : moment l c = some m) (allowed : KeepsRegistry c m) : Orderly c' := by
  obtain ⟨m', named', same, acts⟩ := Bridge.step_performs taken
  cases named.symm.trans named'
  have registry := perform_registry acts
  rw [same] at registry
  refine ⟨step_slotPhase orderly.phase taken, step_numbered taken orderly.numbered, ?_, ?_, ?_⟩
  · rw [registry]
    refine ids_apply orderly.ids fun p object stores => ?_
    exact (stores_awaited named stores orderly.numbered).1
  · rw [registry]
    refine (registered_apply orderly.registered (slot_installed orderly.phase)).2 ?_
    exact keeps_of_orderly orderly named allowed
  · intro f awaited
    change c'.state.registry.callFunctionMap f.hashCode = some f
    rw [registry]
    by_cases puts : change m = .put f
    · rw [puts]
      exact Function.update_self ..
    · by_cases sets : ∃ t jsArray index, m.action = .event (.spawn t
        (.set jsArray (some (.callFunction f)) index))
      · obtain ⟨t, jsArray, index, spawns⟩ := sets
        have keeps : change m = .keep := by simp only [change, spawns, eventChange]
        rw [keeps]
        exact allowed.set t jsArray f index spawns
      · refine awaited_kept orderly allowed fun spares => awaited ?_
        exact step_sparesCallback taken named spares puts fun t jsArray index spawns =>
          sets ⟨t, jsArray, index, spawns⟩

def Change.indifferent : Change → Bool
  | .put _ | .destroy _ => false
  | _ => true

def Change.isStore : Change → Bool
  | .store _ _ => true
  | _ => false

def indifferent (m : BridgeMoment) : Bool :=
  (change m).indifferent &&
    match m.action with
    | .event (.spawn _ (.set _ _ _)) => false
    | _ => true

theorem indifferent_noSet (free : indifferent m = true) (t : ThreadId) (jsArray : Option JavaObject)
    (f : JSCallFunction) (index : Int32) :
    m.action ≠ .event (.spawn t (.set jsArray (some (.callFunction f)) index)) := by
  intro spawns
  simp [indifferent, spawns] at free

theorem indifferent_change (free : indifferent m = true) : (change m).indifferent = true :=
  (Bool.and_eq_true_iff.1 free).1

theorem keeps_indifferent (c : BridgeConfig) (m : BridgeMoment) (free : indifferent m = true) :
    KeepsRegistry c m := by
  have quiet := indifferent_change free
  refine ⟨fun t jsArray f index spawns => ?_, fun f puts => ?_, fun p id f destroys => ?_⟩
  · exact absurd spawns (indifferent_noSet free t jsArray f index)
  · rw [puts] at quiet
    cases quiet
  · rw [destroys] at quiet
    cases quiet

def Unused (c : BridgeConfig) : Prop :=
  (∀ p, c.state.registry.callbackAt p = none) ∧ ∀ f, SparesCallback c f

theorem initial_unused (globalObj : Addr) (jvm : List UInt8 → JavaString) :
    Unused (initial globalObj jvm) := by
  constructor
  · intro p
    by_cases same : p = globalObj
    · subst same
      simp [initial, World.fresh, World.registry]
    · simp [initial, World.fresh, World.registry, same]
  · exact fun f => ⟨trivial, fun t => List.forall_mem_nil _⟩

theorem step_unused (unused : Unused c) (taken : bridge.step l c = some c') (named : moment l c = some m)
    (free : indifferent m = true) (makes : (change m).isStore = false) : Unused c' := by
  obtain ⟨m', named', same, acts⟩ := Bridge.step_performs taken
  cases named.symm.trans named'
  have quiet := indifferent_change free
  have registry := perform_registry acts
  rw [same] at registry
  constructor
  · intro p
    rw [registry]
    cases ch : change m with
    | put f => rw [ch] at quiet; cases quiet
    | destroy q => rw [ch] at quiet; cases quiet
    | store q object => rw [ch] at makes; cases makes
    | _ => exact unused.1 p
  · intro f
    refine step_sparesCallback taken named (unused.2 f) ?_ fun t jsArray index => indifferent_noSet free t
      jsArray f index
    intro puts
    rw [puts] at quiet
    cases quiet

theorem run_unused {labels : List BridgeLabel} {d : BridgeConfig} (unused : Unused c)
    (all : (bridge.history labels c).all (fun m => indifferent m && !(change m).isStore) = true)
    (ran : bridge.run labels c = some d) : Unused d := by
  refine Bridge.run_invariant Unused (fun l c c' unused allowed taken => ?_) unused
    (Bridge.respects_of_all all) ran
  obtain ⟨m, named, -, -⟩ := Bridge.step_performs taken
  obtain ⟨free, makes⟩ := Bool.and_eq_true_iff.1 (allowed m named)
  exact step_unused unused taken named free (Bool.not_eq_true' _ |>.mp makes)

theorem keeps_unused (unused : Unused c)
    (noSet : ∀ t jsArray f index, m.action ≠ .event (.spawn t (.set jsArray (some (.callFunction f)) index))) :
    KeepsRegistry c m := by
  refine ⟨fun t jsArray f index spawns => absurd spawns (noSet t jsArray f index), ?_, ?_⟩
  · rintro f - g (⟨p, id, live⟩ | awaited)
    · cases (unused.1 p).symm.trans live
    · exact absurd (unused.2 g) awaited
  · rintro p id f - owner
    cases (unused.1 p).symm.trans owner

/-- The map is right in every state of a run in which JSArray.set is only used for callbacks that
    are registered, no callback in use loses its hash code to another one, and no function takes
    an entry with it that is still in use. -/
theorem callbacks_registered {globalObj : Addr} {jvm : List UInt8 → JavaString}
    {labels : List BridgeLabel} (permits : bridge.Permits KeepsRegistry labels (initial globalObj jvm)) :
    ∀ w ∈ bridge.visited labels (initial globalObj jvm), CallbacksRegistered w := by
  intro w seen
  obtain ⟨empty, spared⟩ := initial_unused globalObj jvm
  have start : Orderly (initial globalObj jvm) := by
    refine ⟨initial_slotPhase globalObj jvm, trivial, ?_, ?_, ?_⟩
    · intro p id f live
      cases (empty p).symm.trans live
    · intro p object live
      cases (empty p).symm.trans live
    · intro f awaited
      exact absurd (spared f) awaited
  obtain ⟨d, orderly, rfl⟩ := Bridge.visited_permits Orderly
    (fun _ _ _ _ orderly taken named allowed => step_orderly orderly taken named allowed) start permits seen
  exact (registered_iff d.state).2 orderly.registered

/-- Thread 0 gets the global object and begins to set a property of it to a callback. -/
def settingProperty (f : JSCallFunction) : List BridgeLabel :=
  constructing ++
  ([.event (.spawn 0 .getGlobalObject), .call (.native 0), .tau, .tau, .tau, .answer .unit, .tau,
    .event (.retire 0),
    .event (.spawn 0 (.setProperty (some (.handle 0 .jsObject 1 0)) (some []) (some (.callFunction f))))] :
    List BridgeLabel)

/-- The native method makes a function of it. -/
def propertySet : List BridgeLabel :=
  [.call (.native 0), .tau, .tau, .event (.engine (.alloc 20 (some .function))),
    .answer (.value (.object 20)), .tau, .tau, .tau, .answer (.int 1), .tau, .answer (.int 1), .tau]

/-- The callback is registered, and stays so when a function has been made of it. -/
theorem property_callback_registered :
    (∀ w ∈ bridge.visited (settingProperty ⟨0, 7⟩ ++ .event (.javaStep 0) :: propertySet)
      (initial 1 fun _ => []), CallbacksRegistered w) ∧
    (bridge.run (settingProperty ⟨0, 7⟩ ++ .event (.javaStep 0) :: propertySet)
      (initial 1 fun _ => [])).map (fun c => c.state.registry.callbackAt 20) = some (some ⟨7, ⟨0, 7⟩⟩) := by
  have calls : (bridge.run (settingProperty ⟨0, 7⟩) (initial 1 fun _ => [])).map (fun c =>
      (bridge.step (.event (.javaStep 0)) c).map fun c' => (bridge.history propertySet c').all indifferent) =
      some (some true) := by decide
  obtain ⟨c, ran, sets⟩ := Option.map_eq_some_iff.1 calls
  obtain ⟨c', taken, free⟩ := Option.map_eq_some_iff.1 sets
  have unused : Unused c := run_unused (initial_unused 1 _) (by decide) ran
  refine ⟨callbacks_registered (Bridge.permits_append ran ?_ ?_), by decide⟩
  · exact Bridge.permits_of_respects keeps_indifferent (Bridge.respects_of_all (by decide))
  · simp only [Bridge.Permits, taken]
    constructor
    · intro m named
      refine keeps_unused unused fun t jsArray f index spawns => ?_
      cases (moment_event named spawns).1
    · exact Bridge.permits_of_respects keeps_indifferent (Bridge.respects_of_all free)

def storesInArray (f : JSCallFunction) : List BridgeLabel :=
  constructing ++
  ([.event (.spawn 0 (.evaluate (some []) (some []) false 1)), .call (.native 0), .tau, .tau,
    .tau, .event (.engine (.alloc 10 (some .array))), .answer (.value (.object 10)), .tau, .tau,
    .tau, .tau, .tau, .tau, .tau, .answer (.int 1), .tau, .tau, .tau, .tau, .answer .unit, .tau,
    .event (.retire 0),
    .event (.spawn 0 (.set (some (.handle 0 .jsArray 10 0)) (some (.callFunction f)) 0)),
    .call (.native 0), .tau, .event (.engine (.alloc 20 (some .function))),
    .answer (.value (.object 20)), .tau, .tau, .tau, .tau, .answer (.int 1), .tau] : List BridgeLabel)

/-- JSArray.set registers nothing. -/
theorem array_callback_unregistered : ¬ ∀ (globalObj : Addr) (jvm : List UInt8 → JavaString)
    (labels : List BridgeLabel),
    ∀ w ∈ bridge.visited labels (initial globalObj jvm), CallbacksRegistered w := by
  intro registered
  have left : (bridge.run (storesInArray ⟨0, 7⟩) (initial 1 fun _ => [])).map (fun c =>
      (c.state.registry.callbackAt 20, c.state.registry.callFunctionMap 7)) =
      some (some ⟨7, ⟨0, 7⟩⟩, none) := by decide
  obtain ⟨c, ran, state⟩ := Option.map_eq_some_iff.1 left
  obtain ⟨live, missing⟩ := Prod.mk.inj state
  have found := (registered 1 _ _ c.state (Bridge.run_visited ran) 20 _ live).1
  cases missing.symm.trans found

end Runs
end QuickJSBridge
