import QuickJSBridge.PropertyRoundTrips

/- The global object: no native method, callback or step of the engine moves it or puts anything at
   the null address. -/
namespace QuickJSBridge
open HostProgram ReentrantMachine

section Addresses

def Grounds (w w' : World) : Prop :=
  w'.globalObj = w.globalObj ∧ (w.heap 0 = none → w'.heap 0 = none)

theorem Grounds.refl (w : World) : Grounds w w := ⟨rfl, id⟩

theorem Grounds.trans {w w' w'' : World} (first : Grounds w w') (second : Grounds w' w'') : Grounds w w'' :=
  ⟨second.1.trans first.1, fun none => second.2 (first.2 none)⟩

variable {w w' : World} {p : Addr} {v : JSValue} {c : Cell}

theorem grounds_setCell (here : w.heap p = some c) (c' : Option Cell) : Grounds w (w.setCell p c') := by
  constructor
  · rfl
  · intro none
    have other : 0 ≠ p := by
      rintro rfl
      cases none.symm.trans here
    exact (Function.update_of_ne other _ w.heap).trans none

theorem grounds_retain (step : w.retain p = some w') : Grounds w w' := by
  obtain ⟨c, here, rfl⟩ := Option.map_eq_some_iff.1 step
  exact grounds_setCell here _

theorem grounds_toHeap (step : w.toHeap p = some w') : Grounds w w' := by
  obtain ⟨c, here, rfl⟩ := Option.map_eq_some_iff.1 step
  exact grounds_setCell here _

theorem grounds_toNative (step : w.toNative p = some w') : Grounds w w' := by
  obtain ⟨c, here, given⟩ := Option.bind_eq_some_iff.1 step
  cases of_ite_some given
  exact grounds_setCell here _

theorem grounds_release (step : w.release p = some w') : Grounds w w' := by
  obtain ⟨c, here, rfl⟩ := Option.map_eq_some_iff.1 step
  split
  · have gone : Grounds w (w.setCell p none) := grounds_setCell here none
    unfold World.jsFuncCallbackFinalizer
    split
    · exact gone
    · dsimp only
      split <;> exact gone
  · exact grounds_setCell here _

theorem grounds_onValue {step : World → Addr → Option World}
    (keeps : ∀ p w', step w p = some w' → Grounds w w') (taken : w.onValue step v = some w') :
    Grounds w w' := by
  unfold World.onValue at taken
  split at taken
  · cases taken
    exact .refl w
  · exact keeps _ _ taken

theorem grounds_engineEvent {e : EngineEvent} (acts : engineEvent w e = some w') : Grounds w w' := by
  cases e with
  | alloc p cls =>
    replace acts : w.alloc p cls = some w' := acts
    unfold World.alloc at acts
    split at acts
    · cases acts
    next free =>
      cases acts
      have other : 0 ≠ p := fun same => free (Or.inl same.symm)
      exact ⟨rfl, fun none => (Function.update_of_ne other _ w.heap).trans none⟩
  | dup p =>
    obtain ⟨c, here, rfl⟩ := Option.map_eq_some_iff.1 acts
    exact grounds_setCell here _
  | drop p =>
    obtain ⟨u, given, dropped⟩ := Option.bind_eq_some_iff.1 acts
    exact (grounds_toNative given).trans (grounds_release dropped)
  | revokeProxy p =>
    obtain ⟨c, here, revoked⟩ := Option.bind_eq_some_iff.1 acts
    cases of_ite_some revoked
    exact grounds_setCell here _
  | throwValue v =>
    obtain ⟨u, given, dropped⟩ := Option.bind_eq_some_iff.1 acts
    have thrown : Grounds { u with exception := v } w' := grounds_onValue (fun _ _ => grounds_release) dropped
    exact (grounds_onValue (fun _ _ => grounds_toNative) given).trans thrown
  | catchException =>
    have caught : Grounds { w with exception := .null } w' := grounds_onValue (fun _ _ => grounds_toHeap) acts
    exact caught
  | _ =>
    cases acts
    exact .refl w

theorem grounds_exec {q : Prim} {a : Answer} (acts : exec q w = some (a, w')) : Grounds w w' := by
  cases q with
  | getGlobalObject =>
    obtain ⟨u, kept, same⟩ := Option.map_eq_some_iff.1 acts
    cases same
    exact grounds_retain kept
  | dupValue v =>
    obtain ⟨u, kept, same⟩ := Option.map_eq_some_iff.1 acts
    cases same
    exact grounds_onValue (fun _ _ => grounds_retain) kept
  | setFuncCallback v id source =>
    obtain ⟨p, -, found⟩ := Option.bind_eq_some_iff.1 acts
    obtain ⟨c, here, stored⟩ := Option.map_eq_some_iff.1 found
    cases stored
    exact grounds_setCell here _
  | isFunction v =>
    cases of_ite_some acts
    exact .refl w
  | isError v =>
    cases of_ite_some acts
    exact .refl w
  | getFuncCallbackId v =>
    obtain ⟨object, -, same⟩ := Option.map_eq_some_iff.1 acts
    cases same
    exact .refl w
  | takeJob =>
    simp only [exec] at acts
    split at acts
    · cases acts
    · cases acts
      exact .refl w
  | _ =>
    cases acts
    exact .refl w

theorem grounds_depart {e : ForeignCall} (leaves : depart e w = some w') : Grounds w w' := by
  cases e with
  | java f args =>
    cases leaves
    exact .refl w
  | engine e =>
    replace leaves := of_ite_some leaves
    split at leaves
    · exact grounds_onValue (fun _ _ => grounds_release) leaves
    · split at leaves
      · exact grounds_onValue (fun _ _ => grounds_toHeap) leaves
      · cases leaves
        exact .refl w

theorem grounds_event {ev : Event} {ctx : Option ForeignCall} (acts : event ev ctx w = some w') :
    Grounds w w' := by
  cases ev with
  | engine e =>
    cases ctx with
    | none => cases acts
    | some call =>
      cases call with
      | java f args => cases acts
      | engine call => exact grounds_engineEvent (of_ite_some acts)
  | spawn t call =>
    cases of_ite_some acts
    exact .refl w
  | javaStep t =>
    replace acts := of_ite_some acts
    split at acts
    next q next frames _ =>
      cases acts
      cases q <;> exact ⟨rfl, id⟩
    next => cases acts
  | retire t =>
    replace acts := of_ite_some acts
    split at acts
    next =>
      cases acts
      exact .refl w
    next => cases acts

theorem grounds_start {o : BridgeOp} {ctx : Option ForeignCall} {q : Program Answer}
    (starts : start o ctx w = some (w', q)) : Grounds w w' := by
  cases o with
  | native t =>
    simp only [start, startNative] at starts
    split at starts
    next =>
      split at starts
      next => cases starts
      next =>
        cases of_ite_some starts
        exact .refl w
    next => cases starts
  | jsFnCallback func thisObj argv =>
    simp only [start, startCallback] at starts
    split at starts
    next =>
      cases of_ite_some starts
      exact .refl w
    next => cases starts

theorem perform_grounds {m : BridgeMoment} (acts : bridge.perform m = some w') : Grounds m.before w' := by
  obtain ⟨action, ctx, w⟩ := m
  cases action with
  | prim q =>
    obtain ⟨⟨a, u⟩, done, rfl⟩ := Option.map_eq_some_iff.1 acts
    exact grounds_exec done
  | depart e => exact grounds_depart acts
  | deliver e a =>
    rcases deliver_gives acts with given | ⟨thrown, rfl⟩
    · exact grounds_onValue (fun _ _ => grounds_toNative) given
    · exact .refl w
  | start o =>
    obtain ⟨⟨u, q⟩, starts, rfl⟩ := Option.map_eq_some_iff.1 acts
    exact grounds_start starts
  | finish o a =>
    replace acts : finish o a w = some w' := acts
    cases o with
    | native t =>
      simp only [finish, finishNative] at acts
      split at acts
      next =>
        cases acts
        exact .refl w
      next => cases acts
    | jsFnCallback func thisObj argv => exact grounds_onValue (fun _ _ => grounds_toHeap) acts
  | event ev => exact grounds_event acts

theorem grounds_run {labels : List BridgeLabel} {x y : BridgeConfig}
    (ran : bridge.run labels x = some y) : Grounds x.state y.state :=
  Bridge.run_state_invariant (Grounds x.state) (fun _ _ kept acts => kept.trans (perform_grounds acts))
    (.refl _) ran

theorem grounds_reply {e : ForeignCall} {a : Answer} (reply : bridge.Reply e w a w') : Grounds w w' :=
  Bridge.reply_invariant (Grounds w) (fun _ _ kept acts => kept.trans (perform_grounds acts)) reply (.refl w)

theorem grounds_program {R : Type} {q : Program R} {h : BridgeHistory} {out : Outcome R}
    (run : Exec bridge.meaning q w h out w') : Grounds w w' := by
  induction run with
  | ret r s => exact .refl s
  | crash s => exact .refl s
  | prim acts rest ih => exact (grounds_exec acts).trans ih
  | enter answers rest ih => exact (grounds_reply answers).trans ih

end Addresses

end QuickJSBridge
