import QuickJSBridge.OpaqueSlot

/- Callbacks by their id. The map on the Java side has one entry for each hash code, a JS function
   made from a callback only stores that number, and its finalizer erases the entry. -/
namespace QuickJSBridge
open HostProgram ReentrantMachine

/-- The id of every live function made from a callback leads back to that callback. -/
def Registry.Registered (r : Registry) : Prop :=
  ∀ p object, r.callbackAt p = some object → r.callFunctionMap object.callbackId = some object.source

def Reaches (w : World) (callbackId : Int32) (f : JSCallFunction) : Prop :=
  ∀ args trace out t, Exec bridge.meaning (Wrapper.callFunctionBack callbackId args) w trace out t →
    ∃ a b u rest, trace = .prim (.callFunctionMapGet callbackId) a w ::
        .call (.java f args) b u :: rest ∧
      ∀ item ∈ rest, ∃ q c v, item = .prim q c v

/-- The map sends the id of every live function to its callback, so calls reach it. -/
def CallbacksRegistered (w : World) : Prop :=
  ∀ p object, w.registry.callbackAt p = some object →
    w.callFunctionMap object.callbackId = some object.source ∧
      Reaches w object.callbackId object.source

section Calls

theorem reaches_of_map {w : World} {id : Int32} {f : JSCallFunction}
    (there : w.callFunctionMap id = some f) : Reaches w id f := by
  intro args trace out t run
  obtain ⟨a, w', rest, found, tail, rfl⟩ := exec_prim run
  have looked : exec (.callFunctionMapGet id) w = some (a, w') := found
  simp only [exec, there, Option.map_some, Option.some.injEq, Prod.mk.injEq] at looked
  obtain ⟨rfl, rfl⟩ := looked
  obtain ⟨b, u, rest, -, after, rfl⟩ := exec_enter tail
  refine ⟨_, b, u, rest, rfl, ?_⟩
  -- only a callback that was returned is still to be registered
  generalize b.toJava = ret at after
  simp only [Prog.bind_eq, Prog.pure_eq, Prog.bind_ret] at after
  split at after
  · obtain ⟨c, v, rest', -, last, rfl⟩ := exec_prim after
    obtain ⟨rfl, -, -⟩ := exec_ret last
    intro item member
    exact ⟨_, c, v, List.mem_singleton.1 member⟩
  · obtain ⟨rfl, -, -⟩ := exec_ret after
    intro item member
    cases member

theorem registered_iff (w : World) : CallbacksRegistered w ↔ w.registry.Registered := by
  constructor
  · intro registered p object live
    exact (registered p object live).1
  · intro registered p object live
    exact ⟨registered p object live, reaches_of_map (registered p object live)⟩

end Calls

section Conditions

/-- What a change needs for the map to stay right: a registration may not take the id of a
    live function of another callback, a new function needs its callback registered under
    its id, and a function that is destroyed may not share its id with a live one. -/
def Registry.Keeps (r : Registry) : Change → Prop
  | .put f => ∀ p object, r.callbackAt p = some object → object.callbackId = f.hashCode →
      object.source = f
  | .store _ object => r.callFunctionMap object.callbackId = some object.source
  | .destroy p => ∀ object, r.callbackAt p = some object → ∀ q other, q ≠ p →
      r.callbackAt q = some other → other.callbackId ≠ object.callbackId
  | _ => True

theorem registered_put {r : Registry} {f : JSCallFunction} (registered : r.Registered) :
    (r.apply (.put f)).Registered ↔ r.Keeps (.put f) := by
  constructor
  · intro after p object live same
    have found : Function.update r.callFunctionMap f.hashCode (some f) object.callbackId =
        some object.source := after p object live
    rw [same, Function.update_self] at found
    exact (Option.some.inj found).symm
  · intro keeps p object live
    have found := registered p object live
    change Function.update r.callFunctionMap f.hashCode (some f) object.callbackId = _
    by_cases same : object.callbackId = f.hashCode
    · rw [same, Function.update_self, keeps p object live same]
    · rw [Function.update_of_ne same]
      exact found

theorem registered_store {r : Registry} {p : Addr} {object : FuncCallback}
    (registered : r.Registered) : (r.apply (.store p object)).Registered ↔ r.Keeps (.store p object) := by
  constructor
  · intro after
    exact after p object (Function.update_self ..)
  · intro keeps q other live
    change r.callFunctionMap other.callbackId = some other.source
    by_cases here : q = p
    · subst here
      cases (Function.update_self ..).symm.trans live
      exact keeps
    · exact registered q other ((Function.update_of_ne here ..).symm.trans live)

theorem registered_destroy {r : Registry} {p : Addr} (registered : r.Registered)
    (installed : ∀ q, r.callbackAt q ≠ none → r.slot = some .wrapper) :
    (r.apply (.destroy p)).Registered ↔ r.Keeps (.destroy p) := by
  have survives : ∀ q other, (r.apply (.destroy p)).callbackAt q = some other ↔
      q ≠ p ∧ r.callbackAt q = some other := by
    intro q other
    simp only [Registry.apply, Registry.callbackAt_destroy]
    by_cases here : q = p
    · subst here
      simp
    · simp [here]
  cases owner : r.callbackAt p with
  | none =>
    have map : (r.apply (.destroy p)).callFunctionMap = r.callFunctionMap := by
      simp [Registry.apply, Registry.destroy, Registry.kill, owner]
    apply iff_of_true
    · intro q other live
      rw [map]
      exact registered q other ((survives q other).1 live).2
    · intro object live
      cases owner.symm.trans live
  | some object =>
    have slot := installed p (by simp [owner])
    have map : (r.apply (.destroy p)).callFunctionMap =
        Function.update r.callFunctionMap object.callbackId none := by
      simp [Registry.apply, Registry.destroy, owner, slot, Registry.read, Registry.kill]
    constructor
    · intro after object' live q other apart there same
      cases owner.symm.trans live
      have found := after q other ((survives q other).2 ⟨apart, there⟩)
      rw [map, same, Function.update_self] at found
      cases found
    · intro keeps q other live
      obtain ⟨apart, there⟩ := (survives q other).1 live
      rw [map, Function.update_of_ne (keeps object owner q other apart there)]
      exact registered q other there

theorem registered_apply {r : Registry} {ch : Change} (registered : r.Registered)
    (installed : ∀ q, r.callbackAt q ≠ none → r.slot = some .wrapper) :
    (r.apply ch).Registered ↔ r.Keeps ch := by
  cases ch with
  | put f => exact registered_put registered
  | store p object => exact registered_store registered
  | destroy p => exact registered_destroy registered installed
  | _ => exact iff_of_true registered trivial

end Conditions

end QuickJSBridge
