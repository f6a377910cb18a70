import QuickJSBridge.CommandBounds

/- What Java, the wrapper and the engine share through bare numbers: the opaque slot of the
   runtime, the callbacks by their id, and the objects by the addresses that handles record.
   Seen alone this is a small machine, and every step of the bridge is one of its changes. -/
namespace QuickJSBridge
open HostProgram ReentrantMachine

@[ext] structure Registry where
  objectAt : Addr → Bool
  handles : List Handle
  callbackAt : Addr → Option FuncCallback
  callFunctionMap : Int32 → Option JSCallFunction
  slot : Option SlotRecord
  slotReads : List SlotRead
  created : Bool

inductive Change where
  | keep
  | alloc (p : Addr)
  | newHandle (h : Handle)
  | freed (id : Nat)
  | put (f : JSCallFunction)
  | store (p : Addr) (object : FuncCallback)
  | destroy (p : Addr)
  | install (r : SlotRecord)
  | read (expected : SlotRecord)
  | create

namespace Registry

def read (r : Registry) (expected : SlotRecord) : Registry :=
  { r with slotReads := r.slotReads ++ [⟨expected, r.slot⟩] }

def kill (r : Registry) (p : Addr) : Registry :=
  { r with
    objectAt := Function.update r.objectAt p false
    callbackAt := Function.update r.callbackAt p none }

def destroy (r : Registry) (p : Addr) : Registry :=
  match r.callbackAt p with
  | none => r.kill p
  | some object =>
    let r' := (r.kill p).read .wrapper
    if r.slot = some .wrapper then
      { r' with callFunctionMap := Function.update r.callFunctionMap object.callbackId none }
    else r'

@[simp] theorem callbackAt_destroy (r : Registry) (p : Addr) :
    (r.destroy p).callbackAt = Function.update r.callbackAt p none := by
  unfold destroy
  split
  · rfl
  · split <;> rfl

@[simp] theorem objectAt_destroy (r : Registry) (p : Addr) :
    (r.destroy p).objectAt = Function.update r.objectAt p false := by
  unfold destroy
  split
  · rfl
  · split <;> rfl

@[simp] theorem handles_destroy (r : Registry) (p : Addr) : (r.destroy p).handles = r.handles := by
  unfold destroy
  split
  · rfl
  · split <;> rfl

@[simp] theorem slot_destroy (r : Registry) (p : Addr) : (r.destroy p).slot = r.slot := by
  unfold destroy
  split
  · rfl
  · split <;> rfl

@[simp] theorem created_destroy (r : Registry) (p : Addr) : (r.destroy p).created = r.created := by
  unfold destroy
  split
  · rfl
  · split <;> rfl

def apply (r : Registry) : Change → Registry
  | .keep => r
  | .alloc p => { r with objectAt := Function.update r.objectAt p true }
  | .newHandle h => { r with handles := r.handles ++ [h] }
  | .freed id => { r with handles := r.handles.modify id fun h => { h with freed := true } }
  | .put f => { r with callFunctionMap := Function.update r.callFunctionMap f.hashCode (some f) }
  | .store p object => { r with callbackAt := Function.update r.callbackAt p (some object) }
  | .destroy p => r.destroy p
  | .install record => { r with slot := some record }
  | .read expected => r.read expected
  | .create => { r with created := true }

end Registry

def World.registry (w : World) : Registry where
  objectAt p := ((w.heap p).bind Cell.cls).isSome
  handles := w.handles
  callbackAt p := (w.heap p).bind Cell.callback
  callFunctionMap := w.callFunctionMap
  slot := w.slot
  slotReads := w.slotReads
  created := w.created

section Changes

def releaseAt (w : World) (p : Addr) : Change :=
  if (w.heap p).any (·.refCount ≤ 1) then .destroy p else .keep

def releaseOf (w : World) (v : JSValue) : Change :=
  match v.addr? with
  | none => .keep
  | some p => releaseAt w p

def primChange (w : World) : Prim → Change
  | .newObject _ cls thisObj pointer borrowed =>
    .newHandle ⟨cls, pointer, thisObj.pointer, w.serialAt pointer, borrowed, false⟩
  | .putCallFunction f => .put f
  | .setFuncCallback v id source =>
    match v.addr? with
    | none => .keep
    | some p => .store p ⟨id, source⟩
  | .setRuntimeOpaque r => .install r
  | .getRuntimeOpaque => .read .wrapper
  | .contextCreated => .create
  | _ => .keep

def departChange (w : World) : ForeignCall → Change
  | .engine (.freeValue v) => releaseOf w v
  | _ => .keep

def engineChange (w : World) : EngineEvent → Change
  | .alloc p cls => if cls.isSome then .alloc p else .keep
  | .drop p => releaseAt w p
  | .throwValue _ => releaseOf w w.exception
  | .libcRead _ => .read .threadState
  | _ => .keep

def eventChange (w : World) : Event → Change
  | .engine e => engineChange w e
  | .javaStep t =>
    match w.tasks t with
    | .ready (.prim (.putCallFunction f) _) :: _ => .put f
    | .ready (.prim (.freeValueCalled id) _) :: _ => .freed id
    | _ => .keep
  | _ => .keep

def change (m : BridgeMoment) : Change :=
  match m.action with
  | .prim c => primChange m.before c
  | .depart e => departChange m.before e
  | .event ev => eventChange m.before ev
  | _ => .keep

end Changes

section Counting
variable {w w' : World} {p : Addr} {c : Cell} {v : JSValue}

theorem registry_setCell (here : w.heap p = some c) (c' : Cell) (callback : c'.callback = c.callback)
    (object : c'.cls.isSome = c.cls.isSome) : (w.setCell p (some c')).registry = w.registry := by
  apply Registry.ext
  · funext q
    by_cases at_p : q = p
    · subst at_p
      simp [World.registry, World.setCell, here, object]
    · simp [World.registry, World.setCell, at_p]
  · rfl
  · funext q
    by_cases at_p : q = p
    · subst at_p
      simp [World.registry, World.setCell, here, callback]
    · simp [World.registry, World.setCell, at_p]
  all_goals rfl

theorem registry_retain (step : w.retain p = some w') : w'.registry = w.registry := by
  obtain ⟨c, here, rfl⟩ := Option.map_eq_some_iff.1 step
  exact registry_setCell here _ rfl rfl

theorem registry_toHeap (step : w.toHeap p = some w') : w'.registry = w.registry := by
  obtain ⟨c, here, rfl⟩ := Option.map_eq_some_iff.1 step
  exact registry_setCell here _ rfl rfl

theorem registry_toNative (step : w.toNative p = some w') : w'.registry = w.registry := by
  obtain ⟨c, here, given⟩ := Option.bind_eq_some_iff.1 step
  cases of_ite_some given
  exact registry_setCell here _ rfl rfl

theorem registry_onValue {step : World → Addr → Option World}
    (keeps : ∀ p w', step w p = some w' → w'.registry = w.registry)
    (taken : w.onValue step v = some w') : w'.registry = w.registry := by
  unfold World.onValue at taken
  split at taken
  · cases taken
    rfl
  · exact keeps _ _ taken

theorem registry_kill (w : World) (p : Addr) : (w.setCell p none).registry = w.registry.kill p := by
  apply Registry.ext
  · funext q
    by_cases at_p : q = p
    · subst at_p
      simp [World.registry, World.setCell, Registry.kill]
    · simp [World.registry, World.setCell, Registry.kill, at_p]
  · rfl
  · funext q
    by_cases at_p : q = p
    · subst at_p
      simp [World.registry, World.setCell, Registry.kill]
    · simp [World.registry, World.setCell, Registry.kill, at_p]
  all_goals rfl

theorem registry_finalized (here : w.heap p = some c) :
    ((w.setCell p none).jsFuncCallbackFinalizer c.callback).registry = w.registry.destroy p := by
  have there : w.registry.callbackAt p = c.callback := by simp [World.registry, here]
  unfold Registry.destroy World.jsFuncCallbackFinalizer
  rw [there, ← registry_kill]
  cases c.callback with
  | none => rfl
  | some object =>
    by_cases installed : w.slot = some .wrapper
    · have slot : (w.setCell p none).slot = some .wrapper := installed
      have slot' : w.registry.slot = some .wrapper := installed
      simp only [slot, slot', if_true]
      rfl
    · have slot : ¬ (w.setCell p none).slot = some .wrapper := installed
      have slot' : ¬ w.registry.slot = some .wrapper := installed
      simp only [slot, slot', if_false]
      rfl

theorem registry_release (step : w.release p = some w') :
    w'.registry = w.registry.apply (releaseAt w p) := by
  obtain ⟨c, here, rfl⟩ := Option.map_eq_some_iff.1 step
  unfold releaseAt
  by_cases last : c.refCount ≤ 1
  · simp only [here, Option.any_some, last, decide_true, if_true]
    exact registry_finalized here
  · simp only [here, Option.any_some, last, decide_false, if_false, Bool.false_eq_true]
    exact registry_setCell here _ rfl rfl

theorem registry_releaseOf (step : w.onValue World.release v = some w') :
    w'.registry = w.registry.apply (releaseOf w v) := by
  unfold World.onValue at step
  unfold releaseOf
  cases counted : v.addr? with
  | none =>
    rw [counted] at step
    cases step
    rfl
  | some p =>
    rw [counted] at step
    exact registry_release step

theorem releaseAt_toNative (step : w.toNative p = some w') (q : Addr) :
    releaseAt w' q = releaseAt w q := by
  obtain ⟨c, here, given⟩ := Option.bind_eq_some_iff.1 step
  cases of_ite_some given
  unfold releaseAt
  by_cases at_p : q = p
  · subst at_p
    simp [World.setCell, here]
  · simp [World.setCell, at_p]

theorem registry_drop (step : w.drop p = some w') :
    w'.registry = w.registry.apply (releaseAt w p) := by
  obtain ⟨u, given, dropped⟩ := Option.bind_eq_some_iff.1 step
  rw [registry_release dropped, registry_toNative given, releaseAt_toNative given]

theorem registry_throwValue (step : w.throwValue v = some w') :
    w'.registry = w.registry.apply (releaseOf w w.exception) := by
  obtain ⟨u, given, dropped⟩ := Option.bind_eq_some_iff.1 step
  have before : ({ u with exception := v } : World).registry = w.registry := by
    have same := registry_onValue (fun _ _ => registry_toNative) given
    exact same
  rw [registry_releaseOf dropped, before]
  congr 1
  unfold World.onValue at given
  unfold releaseOf
  split at given
  next => cases given; rfl
  next =>
    split
    next => rfl
    next q _ => exact releaseAt_toNative given q

theorem registry_alloc {cls : Option ObjectClass} (step : w.alloc p cls = some w') :
    w'.registry = w.registry.apply (engineChange w (.alloc p cls)) := by
  unfold World.alloc at step
  split at step
  next => cases step
  next fresh =>
    cases step
    have empty : w.heap p = none := by
      simp only [not_or, Option.not_isSome_iff_eq_none] at fresh
      exact fresh.2
    have callbacks : ∀ q, ((Function.update w.heap p (some ⟨w.nextSerial, cls, 1, 1, none⟩)) q).bind
        Cell.callback = (w.heap q).bind Cell.callback := by
      intro q
      by_cases at_p : q = p
      · subst at_p
        simp [empty]
      · simp [at_p]
    cases cls with
    | none =>
      apply Registry.ext
      · funext q
        by_cases at_p : q = p
        · subst at_p
          simp [World.registry, World.setCell, Registry.apply, engineChange, empty]
        · simp [World.registry, World.setCell, Registry.apply, engineChange, at_p]
      · rfl
      · exact funext callbacks
      all_goals rfl
    | some cls =>
      apply Registry.ext
      · funext q
        by_cases at_p : q = p
        · subst at_p
          simp [World.registry, World.setCell, Registry.apply, engineChange]
        · simp [World.registry, World.setCell, Registry.apply, engineChange, at_p]
      · rfl
      · exact funext callbacks
      all_goals rfl

theorem registry_revokeProxy (step : w.revokeProxy p = some w') : w'.registry = w.registry := by
  obtain ⟨c, here, revoked⟩ := Option.bind_eq_some_iff.1 step
  obtain ⟨proxy, same⟩ := Option.ite_none_right_eq_some.1 revoked
  cases same
  refine registry_setCell here _ rfl ?_
  rcases proxy with cls | cls <;> rw [cls] <;> rfl

theorem registry_dup (step : w.dup p = some w') : w'.registry = w.registry := by
  obtain ⟨c, here, rfl⟩ := Option.map_eq_some_iff.1 step
  exact registry_setCell here _ rfl rfl

end Counting

section Steps
variable {w w' : World}

theorem deliver_engine {e : EngineCall} {a : Answer}
    (answers : deliver (.engine e) a w = some w') : w.give a.toValue = some w' := by
  simp only [deliver] at answers
  unfold deliverEngine at answers
  split at answers
  case h_4 =>
    obtain ⟨c, -, answers⟩ := Option.bind_eq_some_iff.1 answers
    exact of_ite_some answers
  case h_8 =>
    split at answers
    · cases answers
    · exact answers
  all_goals first
    | (cases answers; done)
    | exact answers
    | exact of_ite_some answers

theorem deliver_gives {e : ForeignCall} {a : Answer} (answers : deliver e a w = some w') :
    w.give a.toValue = some w' ∨ ∃ thrown, w' = { w with javaException := thrown } := by
  cases e with
  | engine e => exact Or.inl (deliver_engine answers)
  | java f args =>
    unfold deliver at answers
    split at answers
    next same => cases same
    next => exact Or.inl (of_ite_some answers)
    next thrown _ => exact Or.inr ⟨some thrown, (Option.some.inj (of_ite_some answers)).symm⟩
    next => cases answers

theorem registry_deliver {e : ForeignCall} {a : Answer} (answers : deliver e a w = some w') :
    w'.registry = w.registry := by
  rcases deliver_gives answers with given | ⟨thrown, rfl⟩
  · exact registry_onValue (fun _ _ => registry_toNative) given
  · rfl

theorem registry_depart {e : ForeignCall} (leaves : depart e w = some w') :
    w'.registry = w.registry.apply (departChange w e) := by
  cases e with
  | java f args =>
    cases leaves
    rfl
  | engine e =>
    simp only [depart, departEngine] at leaves
    replace leaves := of_ite_some leaves
    split at leaves
    next v => exact registry_releaseOf leaves
    next notFree =>
      have keeps : departChange w (.engine e) = .keep := by
        cases e with
        | freeValue v => exact absurd rfl (notFree v)
        | _ => rfl
      rw [keeps]
      split at leaves
      next => exact registry_onValue (fun _ _ => registry_toHeap) leaves
      next => cases leaves; rfl

theorem registry_store {v : JSValue} {id : Int32} {source : JSCallFunction} {a : Answer}
    (acts : exec (.setFuncCallback v id source) w = some (a, w')) :
    w'.registry = w.registry.apply (primChange w (.setFuncCallback v id source)) := by
  obtain ⟨p, counted, found⟩ := Option.bind_eq_some_iff.1 acts
  obtain ⟨c, here, stored⟩ := Option.map_eq_some_iff.1 found
  cases stored
  simp only [primChange, counted]
  apply Registry.ext
  · funext q
    by_cases at_p : q = p
    · subst at_p
      simp [World.registry, World.setCell, Registry.apply, here]
    · simp [World.registry, World.setCell, Registry.apply, at_p]
  · rfl
  · funext q
    by_cases at_p : q = p
    · subst at_p
      simp [World.registry, World.setCell, Registry.apply]
    · simp [World.registry, World.setCell, Registry.apply, at_p]
  all_goals rfl

theorem registry_exec {c : Prim} {a : Answer} (acts : exec c w = some (a, w')) :
    w'.registry = w.registry.apply (primChange w c) := by
  cases c with
  | setFuncCallback v id source => exact registry_store acts
  | getGlobalObject =>
    obtain ⟨u, kept, same⟩ := Option.map_eq_some_iff.1 acts
    cases same
    exact registry_retain kept
  | dupValue v =>
    obtain ⟨u, kept, same⟩ := Option.map_eq_some_iff.1 acts
    cases same
    exact registry_onValue (fun _ _ => registry_retain) kept
  | isFunction v => cases of_ite_some acts; rfl
  | isError v => cases of_ite_some acts; rfl
  | getFuncCallbackId v =>
    obtain ⟨object, -, same⟩ := Option.map_eq_some_iff.1 acts
    cases same
    rfl
  | takeJob =>
    simp only [exec] at acts
    split at acts
    · cases acts
    · cases acts
      rfl
  | _ => cases acts; rfl

theorem registry_engineEvent {e : EngineEvent} (acts : engineEvent w e = some w') :
    w'.registry = w.registry.apply (engineChange w e) := by
  cases e with
  | alloc p cls => exact registry_alloc acts
  | dup p => exact registry_dup acts
  | drop p => exact registry_drop acts
  | revokeProxy p => exact registry_revokeProxy acts
  | throwValue v => exact registry_throwValue acts
  | catchException =>
    have same := registry_onValue (fun _ _ => registry_toHeap) acts
    exact same
  | enqueueJob => cases acts; rfl
  | rejectPromise k reason => cases acts; rfl
  | attachHandler k => cases acts; rfl
  | libcRead r => cases acts; rfl

theorem registry_event {ev : Event} {ctx : Option ForeignCall} (acts : event ev ctx w = some w') :
    w'.registry = w.registry.apply (eventChange w ev) := by
  cases ev with
  | engine e =>
    cases ctx with
    | none => cases acts
    | some call =>
      cases call with
      | java f args => cases acts
      | engine call => exact registry_engineEvent (of_ite_some acts)
  | spawn t call => cases of_ite_some acts; rfl
  | retire t =>
    replace acts := of_ite_some acts
    split at acts
    next => cases acts; rfl
    next => cases acts
  | javaStep t =>
    replace acts := of_ite_some acts
    split at acts
    next c next frames ready =>
      cases acts
      simp only [eventChange, ready]
      cases c <;> rfl
    next => cases acts

theorem registry_start {o : BridgeOp} {ctx : Option ForeignCall} {p : Program Answer}
    (starts : start o ctx w = some (w', p)) : w'.registry = w.registry := by
  cases o with
  | native t =>
    simp only [start, startNative] at starts
    split at starts
    next =>
      split at starts
      next => cases starts
      next => cases of_ite_some starts; rfl
    next => cases starts
  | jsFnCallback func thisObj argv =>
    simp only [start, startCallback] at starts
    split at starts
    next => cases of_ite_some starts; rfl
    next => cases starts

theorem registry_finish {o : BridgeOp} {a : Answer} (done : finish o a w = some w') :
    w'.registry = w.registry := by
  cases o with
  | native t =>
    simp only [finish, finishNative] at done
    split at done
    next => cases done; rfl
    next => cases done
  | jsFnCallback func thisObj argv => exact registry_onValue (fun _ _ => registry_toHeap) done

theorem perform_registry {m : BridgeMoment} (acts : bridge.perform m = some w') :
    w'.registry = m.before.registry.apply (change m) := by
  obtain ⟨action, ctx, w⟩ := m
  cases action with
  | prim c =>
    obtain ⟨⟨a, u⟩, done, rfl⟩ := Option.map_eq_some_iff.1 acts
    exact registry_exec done
  | depart e => exact registry_depart acts
  | deliver e a => exact registry_deliver acts
  | start o =>
    obtain ⟨⟨u, p⟩, starts, rfl⟩ := Option.map_eq_some_iff.1 acts
    exact registry_start starts
  | finish o a => exact registry_finish acts
  | event ev => exact registry_event acts

end Steps
end QuickJSBridge
