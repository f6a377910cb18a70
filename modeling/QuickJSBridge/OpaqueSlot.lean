import QuickJSBridge.Agenda

/- The opaque slot of the runtime. js_std_init_handlers puts the JSThreadState of quickjs-libc
   there, the constructor later overwrites it with the wrapper, and both sides go on
   reading it. -/
namespace QuickJSBridge
open HostProgram ReentrantMachine

def Registry.Correct (r : Registry) : Prop := ∀ read ∈ r.slotReads, read.found = some read.expected

def SlotCorrect (w : World) : Prop := w.registry.Correct

section Phases

/-- Changes that leave the phase of the wrapper alone. -/
def Change.quiet : Change → Bool
  | .store _ _ | .install _ | .create => false
  | _ => true

structure Blank (r : Registry) : Prop where
  raw : r.created = false
  empty : ∀ p, r.callbackAt p = none

theorem slot_apply {r : Registry} {ch : Change} (keeps : ∀ record, ch ≠ .install record) :
    (r.apply ch).slot = r.slot := by
  cases ch with
  | install record => exact absurd rfl (keeps record)
  | destroy p => exact Registry.slot_destroy r p
  | _ => rfl

theorem created_apply {r : Registry} {ch : Change} (made : r.created = true) :
    (r.apply ch).created = true := by
  cases ch with
  | destroy p => exact (Registry.created_destroy r p).trans made
  | create => rfl
  | _ => exact made

theorem blank_apply {r : Registry} {ch : Change} (blank : Blank r) (quiet : ch.quiet = true) :
    Blank (r.apply ch) := by
  cases ch with
  | destroy p =>
    refine ⟨(Registry.created_destroy r p).trans blank.raw, fun q => ?_⟩
    simp only [Registry.apply, Registry.callbackAt_destroy]
    by_cases same : q = p
    · subst same
      exact Function.update_self ..
    · exact (Function.update_of_ne same ..).trans (blank.empty q)
  | store p object => cases quiet
  | install record => cases quiet
  | create => cases quiet
  | _ => exact ⟨blank.raw, blank.empty⟩

theorem quiet_slot {r : Registry} {ch : Change} (quiet : ch.quiet = true) :
    (r.apply ch).slot = r.slot := by
  apply slot_apply
  rintro record rfl
  cases quiet

theorem quiet_releaseOf (w : World) (v : JSValue) : (releaseOf w v).quiet = true := by
  unfold releaseOf
  split
  · rfl
  · unfold releaseAt
    split <;> rfl

theorem quiet_depart (w : World) (e : ForeignCall) : (departChange w e).quiet = true := by
  unfold departChange
  split
  · exact quiet_releaseOf w _
  · rfl

theorem quiet_event (w : World) (ev : Event) : (eventChange w ev).quiet = true := by
  cases ev with
  | engine e =>
    cases e with
    | alloc p cls =>
      simp only [eventChange, engineChange]
      split <;> rfl
    | drop p =>
      simp only [eventChange, engineChange, releaseAt]
      split <;> rfl
    | throwValue v => exact quiet_releaseOf w _
    | _ => rfl
  | javaStep t =>
    simp only [eventChange]
    split <;> rfl
  | _ => rfl

def Kind.ordinary : Kind → Bool
  | .plain | .report => true
  | _ => false

theorem quiet_ordinary {c : Prim} (w : World) (ordinary : c.kind.ordinary = true) :
    (primChange w c).quiet = true := by
  cases c <;> first | rfl | cases ordinary

end Phases

section Constructor

def installing : Program Answer :=
  .prim (.setRuntimeOpaque .wrapper) fun _ => .prim .contextCreated fun _ => .ret .unit

def building : Program Unit := do
  enter .newCustomContext
  Wrapper.evalBufModule Wrapper.importStdAndOs (ascii "<input>")

theorem createContext_program (t : ThreadId) : NativeOp.createContext.program t =
    .prim (.saveEnv t) fun _ => .prim (.setRuntimeOpaque .threadState) fun _ =>
      building.bind fun _ => installing := by
  simp [NativeOp.program, unitResult, Wrapper.create, building, installing, act, enter,
    Prog.bind_assoc]

def Ordinary (k : Kind) : Prop := k.ordinary = true
abbrev Plain {R : Type} (p : Program R) : Prop := Issues Ordinary p

theorem building_plain : Plain building := by
  have may : ∀ k : Kind, k.ordinary = true → Ordinary k := fun _ ok => ok
  apply issues_bind (issues_enter rfl)
  exact fun _ => issues_evalBufModule (may _ rfl) (may _ rfl) _ _

abbrev BridgeFrame := Frame Prim ForeignCall Answer BridgeOp

/-- The stages of the only native method that runs on a wrapper not yet made, with what the
    slot holds in each. -/
inductive Constructing : Control Prim ForeignCall Answer → List BridgeFrame →
    Option SlotRecord → Prop where
  | idle : Constructing .outside [] none
  | entered (t : ThreadId) :
    Constructing (.native (NativeOp.createContext.program t)) [.caller (.native t)] none
  | saved (t : ThreadId) :
    Constructing (.native (.prim (.setRuntimeOpaque .threadState) fun _ =>
      building.bind fun _ => installing)) [.caller (.native t)] none
  | running (t : ThreadId) (q : Program Unit) (plain : Plain q) :
    Constructing (.native (q.bind fun _ => installing)) [.caller (.native t)] (some .threadState)
  | waiting (t : ThreadId) (e : EngineCall) (next : Answer → Program Unit)
    (plain : ∀ a, Plain (next a)) :
    Constructing .outside [.pending (.engine e) fun a => (next a).bind fun _ => installing,
      .caller (.native t)] (some .threadState)
  | installed (t : ThreadId) :
    Constructing (.native (.prim .contextCreated fun _ => .ret .unit)) [.caller (.native t)]
      (some .wrapper)

def Kind.installs : Kind → Bool
  | .install => true
  | _ => false

def NoInstall (k : Kind) : Prop := k.installs = false
abbrev Harmless (_ : BridgeOp) (c : Prim) : Prop := NoInstall c.kind
abbrev AnyCall (_ : BridgeOp) (_ : ForeignCall) : Prop := True

inductive SlotPhase (c : BridgeConfig) : Prop where
  | constructing (blank : Blank c.state.registry)
    (stage : Constructing c.control c.stack c.state.slot)
  | made (created : c.state.created = true) (slot : c.state.slot = some .wrapper)
    (bounded : Bridge.BoundedConfig Harmless AnyCall c)

theorem start_harmless {o : BridgeOp} {ctx : Option ForeignCall} {w w' : World}
    {p : Program Answer} (made : w.created = true) (starts : start o ctx w = some (w', p)) :
    Bridge.Bounded Harmless AnyCall o p := by
  have may : ∀ k : Kind, k.installs = false → NoInstall k := fun _ ok => ok
  cases o with
  | native t =>
    simp only [start, startNative] at starts
    split at starts
    next op next frames _ =>
      split at starts
      next => cases starts
      next =>
        split at starts
        next free =>
          cases starts
          have ordinary : op.isConstructor = false := by simpa [made] using free.2
          exact Prog.within_mono (issues_program (may _ rfl) (may _ rfl) ordinary
            (fun _ => may _ rfl) (fun _ => may _ rfl) (fun _ => may _ rfl) t)
            (fun _ ok => ok) fun _ _ => trivial
        next => cases starts
    next => cases starts
  | jsFnCallback func thisObj argv =>
    simp only [start, startCallback] at starts
    split at starts
    next =>
      cases of_ite_some starts
      exact Prog.within_bind (Prog.within_mono
        (within_jsFnCallback (may _ rfl) (may _ rfl) (may _ rfl) (may _ rfl) _ _ _)
        (fun _ ok => ok) fun _ _ => trivial) fun _ => trivial
    next => cases starts

theorem change_install {m : BridgeMoment} {record : SlotRecord}
    (installs : change m = .install record) : ∃ c : Prim, m.action = .prim c ∧ c.kind.installs = true := by
  obtain ⟨action, ctx, w⟩ := m
  cases action with
  | prim c =>
    refine ⟨c, rfl, ?_⟩
    cases c with
    | setFuncCallback v id source =>
      simp only [change, primChange] at installs
      split at installs <;> cases installs
    | setRuntimeOpaque r => rfl
    | _ => cases installs
  | depart e =>
    have quiet := quiet_depart w e
    rw [show departChange w e = .install record from installs] at quiet
    cases quiet
  | event ev =>
    have quiet := quiet_event w ev
    rw [show eventChange w ev = .install record from installs] at quiet
    cases quiet
  | deliver e a => cases installs
  | start o => cases installs
  | finish o a => cases installs

theorem step_made {l : BridgeLabel} {c c' : BridgeConfig} (created : c.state.created = true)
    (slot : c.state.slot = some .wrapper) (bounded : Bridge.BoundedConfig Harmless AnyCall c)
    (taken : bridge.step l c = some c') : SlotPhase c' := by
  obtain ⟨m, named, same, acts⟩ := Bridge.step_performs taken
  have registry := perform_registry acts
  rw [same] at registry
  have keeps : ∀ record, change m ≠ .install record := by
    intro record installs
    obtain ⟨q, here, bad⟩ := change_install installs
    obtain ⟨next, running⟩ := moment_prim named here
    obtain ⟨o, rest, -, good⟩ := Bridge.prim_permitted bounded running
    cases good.symm.trans bad
  apply SlotPhase.made
  · have still : c'.state.registry.created = true := by
      rw [registry]
      exact created_apply created
    exact still
  · have still : c'.state.registry.slot = c.state.registry.slot := by
      rw [registry]
      exact slot_apply keeps
    exact still.trans slot
  · refine Bridge.step_bounded bounded (fun o ctx s s' p starts here => ?_) taken
    rw [here] at created
    exact start_harmless created starts

theorem blank_quiet {w w' : World} {ch : Change} (blank : Blank w.registry)
    (registry : w'.registry = w.registry.apply ch) (quiet : ch.quiet = true) :
    Blank w'.registry ∧ w'.slot = w.slot := by
  constructor
  · rw [registry]
    exact blank_apply blank quiet
  · have same : w'.registry.slot = w.registry.slot := by
      rw [registry]
      exact quiet_slot quiet
    exact same

theorem step_constructing {l : BridgeLabel} {c c' : BridgeConfig} (blank : Blank c.state.registry)
    (stage : Constructing c.control c.stack c.state.slot)
    (taken : bridge.step l c = some c') : SlotPhase c' := by
  obtain ⟨w, control, stack⟩ := c
  obtain ⟨raw, empty⟩ := blank
  have raw' : w.created = false := raw
  dsimp only at stage
  cases held : w.slot with
  | none =>
    rw [held] at stage
    cases stage with
    | idle =>
      cases l with
      | event ev =>
        obtain ⟨w', acts, rfl⟩ := Option.map_eq_some_iff.1 taken
        replace acts : event ev none w = some w' := acts
        obtain ⟨blank', slot⟩ := blank_quiet ⟨raw, empty⟩ (registry_event acts) (quiet_event w ev)
        exact .constructing blank' (by rw [slot, held]; exact .idle)
      | call o =>
        simp only [Bridge.step] at taken
        replace taken := of_ite_some taken
        obtain ⟨⟨w', p⟩, starts, rfl⟩ := Option.map_eq_some_iff.1 taken
        have same : w'.registry = w.registry := registry_start starts
        have slot : w'.slot = none := (congrArg Registry.slot same).trans held
        cases o with
        | jsFnCallback func thisObj argv => cases starts
        | native t =>
          simp only [bridge, start, startNative] at starts
          split at starts
          next op next frames _ =>
            split at starts
            next => cases starts
            next =>
              split at starts
              next free =>
                cases starts
                have constructor : op.isConstructor = true := by simpa [raw'] using free.2
                cases op with
                | createContext => exact .constructing ⟨raw, empty⟩ (by rw [slot]; exact .entered t)
                | _ => cases constructor
              next => cases starts
          next => cases starts
      | tau => simp [Bridge.step] at taken
      | answer a => simp [Bridge.step] at taken
    | entered t =>
      rw [createContext_program] at taken
      cases l with
      | tau =>
        cases taken
        exact .constructing ⟨raw, empty⟩ (by rw [show _ = none from held]; exact .saved t)
      | _ => simp [Bridge.step] at taken
    | saved t =>
      cases l with
      | tau =>
        cases taken
        exact .constructing ⟨raw, empty⟩ (.running t building building_plain)
      | _ => simp [Bridge.step] at taken
  | some record =>
    rw [held] at stage
    cases stage with
    | running t q plain =>
      cases l with
      | tau =>
        cases q with
        | ret r =>
          cases taken
          exact .constructing ⟨raw, empty⟩ (.installed t)
        | spin => simp [Bridge.step] at taken
        | crash => simp [Bridge.step] at taken
        | prim q next =>
          obtain ⟨⟨a, w'⟩, acts, rfl⟩ := Option.map_eq_some_iff.1 taken
          obtain ⟨blank', slot⟩ := blank_quiet ⟨raw, empty⟩ (registry_exec acts)
            (quiet_ordinary w plain.1)
          exact .constructing blank' (by rw [slot, held]; exact .running t (next a) (plain.2 a))
        | enter e next =>
          obtain ⟨w', leaves, rfl⟩ := Option.map_eq_some_iff.1 taken
          obtain ⟨blank', slot⟩ := blank_quiet ⟨raw, empty⟩ (registry_depart leaves)
            (quiet_depart w e)
          cases e with
          | java f args => cases plain.1.1
          | engine e =>
            exact .constructing blank' (by rw [slot, held]; exact .waiting t e next plain.2)
      | _ => simp [Bridge.step] at taken
    | waiting t e next plain =>
      cases l with
      | event ev =>
        obtain ⟨w', acts, rfl⟩ := Option.map_eq_some_iff.1 taken
        replace acts : event ev (some (.engine e)) w = some w' := acts
        obtain ⟨blank', slot⟩ := blank_quiet ⟨raw, empty⟩ (registry_event acts) (quiet_event w ev)
        exact .constructing blank' (by rw [slot, held]; exact .waiting t e next plain)
      | call o =>
        simp only [Bridge.step] at taken
        split at taken
        next side =>
          obtain ⟨⟨w', p⟩, starts, rfl⟩ := Option.map_eq_some_iff.1 taken
          cases o with
          | native t' => cases side
          | jsFnCallback func thisObj argv =>
            -- no function has been made from a callback yet
            have none : (w.heap func).bind Cell.callback = none := empty func
            simp [bridge, start, startCallback, context, none] at starts
        next => cases taken
      | tau => simp [Bridge.step] at taken
      | answer a =>
        obtain ⟨w', answers, rfl⟩ := Option.map_eq_some_iff.1 taken
        replace answers : deliver (.engine e) a w = some w' := answers
        have change : w'.registry = w.registry.apply .keep := registry_deliver answers
        obtain ⟨blank', slot⟩ := blank_quiet ⟨raw, empty⟩ change rfl
        exact .constructing blank' (by rw [slot, held]; exact .running t (next a) (plain a))
    | installed t =>
      cases l with
      | tau =>
        cases taken
        exact .made rfl held ⟨trivial, trivial⟩
      | _ => simp [Bridge.step] at taken

theorem step_slotPhase {l : BridgeLabel} {c c' : BridgeConfig} (phase : SlotPhase c)
    (taken : bridge.step l c = some c') : SlotPhase c' := by
  cases phase with
  | constructing blank stage => exact step_constructing blank stage taken
  | made created slot bounded => exact step_made created slot bounded taken

theorem initial_slotPhase (globalObj : Addr) (jvm : List UInt8 → JavaString) :
    SlotPhase (initial globalObj jvm) := by
  apply SlotPhase.constructing
  · constructor
    · rfl
    · intro p
      by_cases same : p = globalObj
      · subst same
        simp [initial, World.fresh, World.registry]
      · simp [initial, World.fresh, World.registry, same]
  · exact .idle

end Constructor

section Readers

def Registry.reader (r : Registry) : Change → Option SlotRecord
  | .read expected => some expected
  | .destroy p => (r.callbackAt p).map fun _ => .wrapper
  | _ => none

theorem correct_read {r : Registry} (expected : SlotRecord) (correct : r.Correct) :
    (r.read expected).Correct ↔ r.slot = some expected := by
  constructor
  · intro all
    exact all ⟨expected, r.slot⟩ (List.mem_append_right _ (List.mem_singleton.2 rfl))
  · intro installed read member
    rcases List.mem_append.1 member with earlier | last
    · exact correct read earlier
    · cases List.mem_singleton.1 last
      exact installed

theorem correct_apply {r : Registry} {ch : Change} (correct : r.Correct) :
    (r.apply ch).Correct ↔ ∀ expected, r.reader ch = some expected → r.slot = some expected := by
  cases ch with
  | read expected =>
    have one := correct_read expected correct
    simpa [Registry.reader, Registry.apply] using one
  | destroy p =>
    cases owner : r.callbackAt p with
    | none =>
      have same : r.apply (.destroy p) = r.kill p := by simp [Registry.apply, Registry.destroy, owner]
      rw [same]
      exact iff_of_true correct (by simp [Registry.reader, owner])
    | some object =>
      have one := correct_read .wrapper correct
      have same : (r.destroy p).Correct ↔ (r.read .wrapper).Correct := by
        unfold Registry.destroy
        rw [owner]
        dsimp only
        split <;> rfl
      simpa [Registry.reader, Registry.apply, owner] using same.trans one
  | _ =>
    apply iff_of_true correct
    intro expected none
    cases none

theorem change_read {m : BridgeMoment} {expected : SlotRecord} (reads : change m = .read expected) :
    (expected = .wrapper ∧ m.action = .prim .getRuntimeOpaque) ∨
    (expected = .threadState ∧ ∃ reader, m.action = .event (.engine (.libcRead reader))) := by
  obtain ⟨action, ctx, w⟩ := m
  have released : ∀ v, releaseOf w v ≠ .read expected := by
    intro v same
    unfold releaseOf releaseAt at same
    split at same
    · cases same
    · split at same <;> cases same
  cases action with
  | prim c =>
    cases c with
    | getRuntimeOpaque =>
      cases reads
      exact Or.inl ⟨rfl, rfl⟩
    | setFuncCallback v id source =>
      simp only [change, primChange] at reads
      split at reads <;> cases reads
    | _ => cases reads
  | depart e =>
    simp only [change, departChange] at reads
    split at reads
    · exact absurd reads (released _)
    · cases reads
  | event ev =>
    cases ev with
    | engine e =>
      cases e with
      | libcRead reader =>
        cases reads
        exact Or.inr ⟨rfl, reader, rfl⟩
      | alloc p cls =>
        simp only [change, eventChange, engineChange] at reads
        split at reads <;> cases reads
      | drop p =>
        simp only [change, eventChange, engineChange, releaseAt] at reads
        split at reads <;> cases reads
      | throwValue v => exact absurd reads (released _)
      | _ => cases reads
    | javaStep t =>
      simp only [change, eventChange] at reads
      split at reads <;> cases reads
    | _ => cases reads
  | deliver e a => cases reads
  | start o => cases reads
  | finish o a => cases reads

/-- The functions of quickjs-libc look at the slot only before the wrapper has been made. -/
def readsBeforeMade (m : BridgeMoment) : Prop :=
  match m.action with
  | .event (.engine (.libcRead _)) => m.before.created = false
  | _ => True

theorem constructing_reader {l : BridgeLabel} {c c' : BridgeConfig} {m : BridgeMoment}
    {expected : SlotRecord} (blank : Blank c.state.registry)
    (stage : Constructing c.control c.stack c.state.slot) (taken : bridge.step l c = some c')
    (named : moment l c = some m) (reads : c.state.registry.reader (change m) = some expected) :
    c.state.slot = some expected := by
  have looks : change m = .read expected := by
    unfold Registry.reader at reads
    split at reads
    next same =>
      cases reads
      exact same
    next p _ => simp [blank.empty p] at reads
    next => cases reads
  rcases change_read looks with ⟨rfl, here⟩ | ⟨rfl, reader, here⟩
  · obtain ⟨next, running⟩ := moment_prim named here
    obtain ⟨w, control, stack⟩ := c
    cases running
    dsimp only at stage
    generalize w.slot = held at stage
    generalize body : Prog.prim Prim.getRuntimeOpaque next = p at stage
    cases stage with
    | entered t =>
      rw [createContext_program] at body
      cases body
    | saved t => cases body
    | installed t => cases body
    | running t q plain =>
      cases q with
      | prim q next' =>
        cases body
        cases plain.1
      | ret r => cases body
      | _ => cases body
  · obtain ⟨rfl, outside⟩ := moment_event named here
    obtain ⟨w, control, stack⟩ := c
    cases outside
    obtain ⟨w', acts, -⟩ := Option.map_eq_some_iff.1 taken
    dsimp only at stage ⊢
    generalize w.slot = held at stage ⊢
    cases stage with
    | idle => cases acts
    | waiting t e next plain => rfl

theorem exact_read {l : BridgeLabel} {c c' : BridgeConfig} {m : BridgeMoment}
    (phase : SlotPhase c) (taken : bridge.step l c = some c') (named : moment l c = some m)
    (correct : SlotCorrect c.state) : SlotCorrect c'.state ↔ readsBeforeMade m := by
  obtain ⟨m', named', same, acts⟩ := Bridge.step_performs taken
  cases named.symm.trans named'
  unfold SlotCorrect at correct ⊢
  rw [perform_registry acts, same, correct_apply correct]
  cases phase with
  | constructing blank stage =>
    have fine : readsBeforeMade m := by
      unfold readsBeforeMade
      split
      · rw [same]
        exact blank.raw
      · trivial
    exact iff_of_true (fun _ => constructing_reader blank stage taken named) fine
  | made created slot bounded =>
    constructor
    · intro finds
      unfold readsBeforeMade
      split
      next reader here =>
        have looks : change m = .read .threadState := by
          unfold change
          rw [here]
          rfl
        have wrong := finds .threadState (by rw [looks]; rfl)
        cases slot.symm.trans wrong
      next => trivial
    · intro early expected reads
      have wrapper : expected = .wrapper := by
        unfold Registry.reader at reads
        split at reads
        next looks =>
          cases reads
          rcases change_read looks with ⟨rfl, -⟩ | ⟨rfl, reader, here⟩
          · rfl
          · unfold readsBeforeMade at early
            rw [here] at early
            rw [same, created] at early
            cases early
        next =>
          obtain ⟨object, -, rfl⟩ := Option.map_eq_some_iff.1 reads
          rfl
        next => cases reads
      rw [wrapper]
      exact slot

/-- Every reader finds its kind of record, in every state of a run, exactly when nothing of
    quickjs-libc reads the slot once the wrapper has been made. -/
theorem slot_correct_iff {globalObj : Addr} {jvm : List UInt8 → JavaString}
    {labels : List BridgeLabel} :
    (∀ w ∈ bridge.visited labels (initial globalObj jvm), SlotCorrect w) ↔
      bridge.Respects readsBeforeMade labels (initial globalObj jvm) :=
  Bridge.visited_iff_respects SlotPhase SlotCorrect
    (fun _ _ _ phase taken => step_slotPhase phase taken)
    (fun _ _ _ _ phase taken named correct => exact_read phase taken named correct)
    (initial_slotPhase globalObj jvm) (fun _ member => nomatch member)

def callsEvalScript : List BridgeLabel :=
  constructing ++ ([.event (.spawn 0 (.evaluate (some []) (some []) false 1)), .call (.native 0),
    .tau, .tau, .tau, .event (.engine (.libcRead .jsEvalScript))] : List BridgeLabel)

/-- js_evalScript takes the wrapper for its thread state. -/
theorem evalScript_finds_wrapper : ¬ ∀ (globalObj : Addr) (jvm : List UInt8 → JavaString)
    (labels : List BridgeLabel),
    ∀ w ∈ bridge.visited labels (initial globalObj jvm), SlotCorrect w := by
  intro correct
  have reads : (bridge.run callsEvalScript (initial 1 fun _ => [])).map (fun c =>
      c.state.slotReads.getLast?) = some (some ⟨.threadState, some .wrapper⟩) := by decide
  obtain ⟨c, ran, last⟩ := Option.map_eq_some_iff.1 reads
  have found := correct 1 _ callsEvalScript c.state (Bridge.run_visited ran) _
    (List.mem_of_getLast? last)
  cases found

end Readers
end QuickJSBridge
