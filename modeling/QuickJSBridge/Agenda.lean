import QuickJSBridge.SharedRegistry

/- What is on the agenda besides the heap: the pending jobs, the rejections nobody has handled,
   the rejections the wrapper has recorded, and the pending Java exception. Calls in which
   no JS code runs leave all of it alone. -/
namespace QuickJSBridge
open HostProgram ReentrantMachine

structure Agenda where
  jobs : Nat
  unhandled : List Rejection
  unhandledRejections : List JSValue
  javaException : Option JavaException

def World.agenda (w : World) : Agenda :=
  ⟨w.jobs, w.unhandled, w.unhandledRejections, w.javaException⟩

section Counting
variable {w w' : World} {p : Addr} {v : JSValue}

theorem agenda_toHeap (step : w.toHeap p = some w') : w'.agenda = w.agenda := by
  obtain ⟨c, -, rfl⟩ := Option.map_eq_some_iff.1 step
  rfl

theorem agenda_toNative (step : w.toNative p = some w') : w'.agenda = w.agenda := by
  obtain ⟨c, -, given⟩ := Option.bind_eq_some_iff.1 step
  cases of_ite_some given
  rfl

theorem agenda_release (step : w.release p = some w') : w'.agenda = w.agenda := by
  obtain ⟨c, -, rfl⟩ := Option.map_eq_some_iff.1 step
  split
  · unfold World.jsFuncCallbackFinalizer
    split
    · rfl
    · dsimp only
      split <;> rfl
  · rfl

theorem agenda_onValue {step : World → Addr → Option World}
    (keeps : ∀ p w', step w p = some w' → w'.agenda = w.agenda)
    (taken : w.onValue step v = some w') : w'.agenda = w.agenda := by
  unfold World.onValue at taken
  split at taken
  · cases taken
    rfl
  · exact keeps _ _ taken

theorem agenda_drop (step : w.drop p = some w') : w'.agenda = w.agenda := by
  obtain ⟨u, given, dropped⟩ := Option.bind_eq_some_iff.1 step
  exact (agenda_release dropped).trans (agenda_toNative given)

theorem agenda_alloc {cls : Option ObjectClass} (step : w.alloc p cls = some w') :
    w'.agenda = w.agenda := by
  unfold World.alloc at step
  split at step
  · cases step
  · cases step
    rfl

theorem agenda_throwValue (step : w.throwValue v = some w') : w'.agenda = w.agenda := by
  obtain ⟨u, given, dropped⟩ := Option.bind_eq_some_iff.1 step
  have freed := agenda_onValue (fun _ _ => agenda_release) dropped
  have taken := agenda_onValue (fun _ _ => agenda_toNative) given
  exact freed.trans taken

end Counting

section Replies
variable {w w' : World}

def Prim.onAgenda (c : Prim) (g : Agenda) : Agenda :=
  match c with
  | .takeJob => { g with jobs := g.jobs - 1 }
  | .throw _ e => { g with javaException := some e }
  | .rejectionsPop => { g with unhandledRejections := g.unhandledRejections.tail }
  | _ => g

def Prim.onHeap : Prim → Bool
  | .getGlobalObject | .dupValue _ | .isFunction _ | .isError _ => true
  | .getFuncCallbackId _ | .setFuncCallback _ _ _ => true
  | _ => false

theorem exec_onHeap {c : Prim} {a : Answer} (acts : exec c w = some (a, w'))
    (counts : c.onHeap = true) : ∃ heap, w' = { w with heap := heap } := by
  cases c with
  | getGlobalObject =>
    obtain ⟨u, kept, same⟩ := Option.map_eq_some_iff.1 acts
    obtain ⟨cell, -, rfl⟩ := Option.map_eq_some_iff.1 kept
    cases same
    exact ⟨_, rfl⟩
  | dupValue v =>
    obtain ⟨u, kept, same⟩ := Option.map_eq_some_iff.1 acts
    cases same
    unfold World.onValue at kept
    split at kept
    · cases kept
      exact ⟨_, rfl⟩
    · obtain ⟨cell, -, rfl⟩ := Option.map_eq_some_iff.1 kept
      exact ⟨_, rfl⟩
  | isFunction v =>
    cases of_ite_some acts
    exact ⟨_, rfl⟩
  | isError v =>
    cases of_ite_some acts
    exact ⟨_, rfl⟩
  | getFuncCallbackId v =>
    obtain ⟨object, -, same⟩ := Option.map_eq_some_iff.1 acts
    cases same
    exact ⟨_, rfl⟩
  | setFuncCallback v id source =>
    obtain ⟨p, -, found⟩ := Option.bind_eq_some_iff.1 acts
    obtain ⟨cell, -, stored⟩ := Option.map_eq_some_iff.1 found
    cases stored
    exact ⟨_, rfl⟩
  | _ => cases counts

theorem agenda_exec {c : Prim} {a : Answer} (acts : exec c w = some (a, w')) :
    w'.agenda = c.onAgenda w.agenda := by
  cases counts : c.onHeap with
  | true =>
    obtain ⟨heap, rfl⟩ := exec_onHeap acts counts
    cases c <;> first | rfl | cases counts
  | false =>
    cases c with
    | takeJob =>
      simp only [exec] at acts
      split at acts
      · cases acts
      · cases acts
        rfl
    | _ => first | (cases acts; rfl) | cases counts

theorem exception_exec {c : Prim} {a : Answer} (acts : exec c w = some (a, w'))
    (other : c ≠ .getException) : w'.exception = w.exception := by
  cases counts : c.onHeap with
  | true =>
    obtain ⟨heap, rfl⟩ := exec_onHeap acts counts
    rfl
  | false =>
    cases c with
    | getException => exact absurd rfl other
    | takeJob =>
      simp only [exec] at acts
      split at acts
      · cases acts
      · cases acts
        rfl
    | _ => first | (cases acts; rfl) | cases counts

theorem agenda_depart {e : ForeignCall} (leaves : depart e w = some w') :
    w'.agenda = w.agenda := by
  cases e with
  | java f args =>
    cases leaves
    rfl
  | engine e =>
    replace leaves := of_ite_some leaves
    split at leaves
    · exact agenda_onValue (fun _ _ => agenda_release) leaves
    · split at leaves
      · exact agenda_onValue (fun _ _ => agenda_toHeap) leaves
      · cases leaves
        rfl

theorem agenda_engine {e : EngineCall} {a : Answer} (answers : deliver (.engine e) a w = some w') :
    w'.agenda = w.agenda := by
  have given := deliver_engine answers
  exact agenda_onValue (fun _ _ => agenda_toNative) given

theorem agenda_event {e : EngineCall} {ev : Event} (noJS : e.runsJS = false)
    (acts : event ev (some (.engine e)) w = some w') : w'.agenda = w.agenda := by
  cases ev with
  | engine v =>
    obtain ⟨may, acts⟩ := Option.ite_none_right_eq_some.1 acts
    rw [noJS, Bool.false_or] at may
    cases v with
    | alloc p cls => exact agenda_alloc acts
    | drop p => exact agenda_drop acts
    | throwValue v => exact agenda_throwValue acts
    | _ => cases may
  | spawn t call => cases of_ite_some acts; rfl
  | javaStep t =>
    replace acts := of_ite_some acts
    split at acts
    next c next frames _ =>
      cases acts
      cases c <;> rfl
    next => cases acts
  | retire t =>
    replace acts := of_ite_some acts
    split at acts
    next => cases acts; rfl
    next => cases acts

theorem reply_quiet {e : EngineCall} {a : Answer} (noJS : e.runsJS = false)
    (reply : bridge.Reply (.engine e) w a w') : w'.agenda = w.agenda := by
  apply Bridge.reply_by_events (fun u => u.agenda = w.agenda) reply
  · intro o s called
    cases o with
    | native t => cases called
    | jsFnCallback func thisObj argv => simp [bridge, start, startCallback, noJS]
  · intro s leaves
    replace leaves : depart (.engine e) w = some s := leaves
    exact agenda_depart leaves
  · intro v s s' same acts
    exact (agenda_event noJS acts).trans same
  · intro s s' same answers
    replace answers : deliver (.engine e) a s = some s' := answers
    exact (agenda_engine answers).trans same

end Replies

section Rejections

theorem rejections_of_agenda {w w' : World} (same : w'.agenda = w.agenda)
    (none : w.unhandledRejections = []) : w'.unhandledRejections = [] :=
  (congrArg Agenda.unhandledRejections same).trans none

theorem perform_rejections {m : BridgeMoment} {w' : World}
    (none : m.before.unhandledRejections = []) (acts : bridge.perform m = some w') :
    w'.unhandledRejections = [] := by
  obtain ⟨action, ctx, w⟩ := m
  replace none : w.unhandledRejections = [] := none
  cases action with
  | prim c =>
    obtain ⟨⟨a, u⟩, done, rfl⟩ := Option.map_eq_some_iff.1 acts
    have after := congrArg Agenda.unhandledRejections (agenda_exec done)
    replace after : u.unhandledRejections = _ := after
    rw [after]
    cases c with
    | rejectionsPop =>
      change w.unhandledRejections.tail = []
      rw [none]
      rfl
    | _ => exact none
  | depart e => exact rejections_of_agenda (agenda_depart acts) none
  | deliver e a =>
    rcases deliver_gives acts with given | ⟨thrown, rfl⟩
    · exact rejections_of_agenda (agenda_onValue (fun _ _ => agenda_toNative) given) none
    · exact none
  | start o =>
    obtain ⟨⟨u, p⟩, starts, rfl⟩ := Option.map_eq_some_iff.1 acts
    replace starts : start o ctx w = some (u, p) := starts
    cases o with
    | native t =>
      simp only [start, startNative] at starts
      split at starts
      next =>
        split at starts
        next => cases starts
        next => cases of_ite_some starts; exact none
      next => cases starts
    | jsFnCallback func thisObj argv =>
      simp only [start, startCallback] at starts
      split at starts
      next => cases of_ite_some starts; exact none
      next => cases starts
  | finish o a =>
    replace acts : finish o a w = some w' := acts
    cases o with
    | native t =>
      simp only [finish, finishNative] at acts
      split at acts
      next => cases acts; exact none
      next => cases acts
    | jsFnCallback func thisObj argv =>
      exact rejections_of_agenda (agenda_onValue (fun _ _ => agenda_toHeap) acts) none
  | event ev =>
    replace acts : event ev ctx w = some w' := acts
    cases ev with
    | engine e =>
      cases ctx with
      | none => cases acts
      | some call =>
        cases call with
        | java f args => cases acts
        | engine call =>
          replace acts : engineEvent w e = some w' := of_ite_some acts
          cases e with
          | alloc p cls => exact rejections_of_agenda (agenda_alloc acts) none
          | drop p => exact rejections_of_agenda (agenda_drop acts) none
          | throwValue v => exact rejections_of_agenda (agenda_throwValue acts) none
          | dup p =>
            obtain ⟨c, -, rfl⟩ := Option.map_eq_some_iff.1 acts
            exact none
          | revokeProxy p =>
            obtain ⟨c, -, revoked⟩ := Option.bind_eq_some_iff.1 acts
            cases of_ite_some revoked
            exact none
          | catchException =>
            have same := agenda_onValue (fun _ _ => agenda_toHeap) acts
            exact rejections_of_agenda same none
          | _ => cases acts; exact none
    | spawn t call => cases of_ite_some acts; exact none
    | retire t =>
      replace acts := of_ite_some acts
      split at acts
      next => cases acts; exact none
      next => cases acts
    | javaStep t =>
      replace acts := of_ite_some acts
      split at acts
      next c next frames _ =>
        cases acts
        cases c <;> exact none
      next => cases acts

theorem reply_rejections {e : ForeignCall} {a : Answer} {w w' : World}
    (reply : bridge.Reply e w a w') (none : w.unhandledRejections = []) :
    w'.unhandledRejections = [] :=
  Bridge.reply_invariant (fun w => w.unhandledRejections = []) (fun _ _ => perform_rejections) reply none

theorem exec_rejections {c : Prim} {a : Answer} {w w' : World} (none : w.unhandledRejections = [])
    (acts : exec c w = some (a, w')) : w'.unhandledRejections = [] := by
  have performed : bridge.perform ⟨.prim c, Option.none, w⟩ = some w' := by
    change (exec c w).map Prod.snd = some w'
    rw [acts]
    rfl
  exact perform_rejections none performed

theorem reached_rejections {globalObj : Addr} {jvm : List UInt8 → JavaString}
    {labels : List BridgeLabel} {c : BridgeConfig}
    (ran : bridge.run labels (initial globalObj jvm) = some c) : c.state.unhandledRejections = [] :=
  Bridge.run_state_invariant (fun w => w.unhandledRejections = []) (fun _ _ => perform_rejections)
    rfl ran

end Rejections
end QuickJSBridge
