import QuickJSBridge.ResultRelease

/- Freeing a handle more than once. `values` knows objects by their address alone, so what a
   second call does depends on what has been registered at that address since the first. -/
namespace QuickJSBridge
open HostProgram ReentrantMachine

section Keys
variable {w w' : World} {p : Nat}

def Prim.onKey (p : Nat) (known : Bool) : Prim → Bool
  | .valuesInsert q => if p = q then true else known
  | .valuesErase q => if p = q then false else known
  | _ => known

def keyAfter (p : Nat) (known : Bool) (m : BridgeMoment) : Bool :=
  match m.action with
  | .prim c => c.onKey p known
  | _ => known

/-- Whether the address is registered after these actions, as it was not before them. -/
def registered (p : Nat) (past : List BridgeMoment) : Bool := past.foldl (keyAfter p) false

theorem exec_key {c : Prim} {a : Answer} (acts : exec c w = some (a, w')) :
    w'.values p = c.onKey p (w.values p) := by
  cases counts : c.onHeap with
  | true =>
    obtain ⟨heap, rfl⟩ := exec_onHeap acts counts
    cases c <;> first | rfl | cases counts
  | false =>
    cases c with
    | takeJob =>
      simp only [exec] at acts
      split at acts
      · cases acts
      · cases acts
        rfl
    | valuesInsert q =>
      cases acts
      exact Function.update_apply w.values q true p
    | valuesErase q =>
      cases acts
      exact Function.update_apply w.values q false p
    | _ => first | (cases acts; rfl) | cases counts

theorem start_key {o : BridgeOp} {ctx : Option ForeignCall} {q : Program Answer}
    (starts : start o ctx w = some (w', q)) : w'.values = w.values := by
  cases o with
  | native t =>
    replace starts : startNative t w = some (w', q) := starts
    unfold startNative at starts
    split at starts
    · split at starts
      · cases starts
      · cases of_ite_some starts
        rfl
    · cases starts
  | jsFnCallback func thisObj argv =>
    replace starts : startCallback func thisObj argv ctx w = some (w', q) := starts
    unfold startCallback at starts
    split at starts
    · cases of_ite_some starts
      rfl
    · cases starts

theorem finish_key {o : BridgeOp} {a : Answer} (done : finish o a w = some w') :
    w'.values = w.values := by
  cases o with
  | native t => exact (finish_accounted done).1
  | jsFnCallback func thisObj argv =>
    exact congrArg Sideline.values (sideline_onValue (fun _ _ => sideline_toHeap) done)

theorem perform_key {m : BridgeMoment} (acts : bridge.perform m = some w') :
    w'.values p = keyAfter p (m.before.values p) m := by
  obtain ⟨action, ctx, w⟩ := m
  cases action with
  | prim c =>
    obtain ⟨⟨a, u⟩, done, rfl⟩ := Option.map_eq_some_iff.1 acts
    exact exec_key done
  | depart e =>
    cases e with
    | engine e => exact congrFun (congrArg Sideline.values (sideline_depart acts)) p
    | java f args =>
      cases acts
      rfl
  | deliver e a => exact congrFun (congrArg Sideline.values (sideline_deliver acts)) p
  | start o =>
    obtain ⟨⟨u, q⟩, starts, rfl⟩ := Option.map_eq_some_iff.1 acts
    exact congrFun (start_key starts) p
  | finish o a => exact congrFun (finish_key acts) p
  | event v => exact congrFun (congrArg Sideline.values (sideline_event acts)) p

theorem run_key {labels : List BridgeLabel} {c d : BridgeConfig} (ran : bridge.run labels c = some d) :
    d.state.values p = (bridge.history labels c).foldl (keyAfter p) (c.state.values p) := by
  induction labels generalizing c with
  | nil =>
    cases ran
    rfl
  | cons l labels ih =>
    obtain ⟨c', taken, rest⟩ := Bridge.run_cons ran
    obtain ⟨m, named, same, acts⟩ := Bridge.step_performs taken
    have here : c'.state.values p = keyAfter p (m.before.values p) m := perform_key acts
    rw [Bridge.history_cons taken, named, ih rest, here, same]
    rfl

end Keys

section Frees
variable {w : World} {p : Nat}

/-- Freeing the handle of an address can be done, and changes neither `values` nor a count. -/
def HarmlessFree (w : World) (p : Nat) : Prop :=
  (∃ trace u, Exec bridge.meaning (Wrapper.freeValue p) w trace (.returned ()) u) ∧
  ∀ trace out u, Exec bridge.meaning (Wrapper.freeValue p) w trace out u →
    u.values = w.values ∧ ∀ q, (u.heap q).map Cell.refCount = (w.heap q).map Cell.refCount

theorem reply_sideline {e : EngineCall} {a : Answer} {w' : World} (noJS : e.runsJS = false)
    (reply : bridge.Reply (.engine e) w a w') : w'.sideline = w.sideline := by
  apply Bridge.reply_by_events (fun u => u.sideline = w.sideline) reply
  · intro o s called
    cases o with
    | native t => cases called
    | jsFnCallback func thisObj argv => simp [bridge, start, startCallback, noJS]
  · exact fun s leaves => sideline_depart leaves
  · intro v s s' same acts
    replace acts : event v (some (.engine e)) s = some s' := acts
    exact (sideline_event acts).trans same
  · intro s s' same back
    replace back : deliver (.engine e) a s = some s' := back
    exact (sideline_deliver back).trans same

theorem values_freeValue {v : JSValue} {trace : BridgeHistory} {out : Outcome Unit} {u : World}
    (run : Exec bridge.meaning (freeValue v) w trace out u) : u.values = w.values := by
  unfold freeValue at run
  split at run
  · obtain ⟨-, -, rfl⟩ := exec_ret run
    rfl
  · obtain ⟨a, s, rest, answers, tail, rfl⟩ := exec_enter run
    obtain ⟨-, -, rfl⟩ := exec_ret tail
    exact congrArg Sideline.values (reply_sideline rfl answers)

theorem harmlessFree_iff : HarmlessFree w p ↔ w.values p = false := by
  have first : ∀ trace out u, Exec bridge.meaning (Wrapper.freeValue p) w trace out u →
      ∃ rest, Exec bridge.meaning (if w.values p then freeValue (.object p) else .ret ())
        { w with values := Function.update w.values p false } rest out u := by
    intro trace out u run
    obtain ⟨a, s, rest, acts, tail, rfl⟩ := exec_prim run
    cases acts
    exact ⟨rest, tail⟩
  constructor
  · rintro ⟨⟨trace, u, run⟩, keeps⟩
    obtain ⟨rest, tail⟩ := first trace _ u run
    cases known : w.values p with
    | false => rfl
    | true =>
      rw [known, if_pos rfl] at tail
      have same := congrFun (keeps trace _ u run).1 p
      rw [values_freeValue tail, known] at same
      have gone : Function.update w.values p false p = false := Function.update_self p false w.values
      exact same.symm.trans gone
  · intro unknown
    have same : Function.update w.values p false = w.values := by
      rw [← unknown, Function.update_eq_self]
    constructor
    · have rest : Exec bridge.meaning (if w.values p then freeValue (.object p) else .ret ())
          { w with values := Function.update w.values p false } [] (.returned ())
          { w with values := Function.update w.values p false } := by
        rw [unknown]
        exact .ret _ _
      exact ⟨_, _, .prim rfl rest⟩
    · intro trace out u run
      obtain ⟨rest, tail⟩ := first trace out u run
      rw [unknown, if_neg Bool.false_ne_true] at tail
      obtain ⟨-, -, rfl⟩ := exec_ret tail
      exact ⟨same, fun _ => rfl⟩

end Frees

/-- A run in which the native part of `freeValue` has come for a handle, up to a later moment. -/
structure FreedRun where
  globalObj : Addr
  jvm : List UInt8 → JavaString
  first : List BridgeLabel
  freeing : BridgeConfig
  ran : bridge.run first (initial globalObj jvm) = some freeing
  handle : Handle
  next : Answer → Program Answer
  frees : freeing.control = .native (.prim (.valuesErase handle.pointer) next)
  since : List BridgeLabel
  now : BridgeConfig
  goesOn : bridge.run (.tau :: since) freeing = some now
  known : handle ∈ now.state.handles
  called : handle.freed = true

theorem moment_erases {c : BridgeConfig} {m : BridgeMoment} {next : Answer → Program Answer}
    (frees : c.control = .native (.prim (.valuesErase p) next)) (named : moment .tau c = some m) :
    m.action = .prim (.valuesErase p) := by
  obtain ⟨s, control, stack⟩ := c
  cases frees
  cases named
  rfl

namespace FreedRun

/-- What has happened from the first freeing on. -/
def past (r : FreedRun) : List BridgeMoment := bridge.history (.tau :: r.since) r.freeing

/-- Freeing the handle once more is harmless exactly if no object at its address has been
    registered since, or all that were are freed. -/
theorem freed_again_iff (r : FreedRun) :
    HarmlessFree r.now.state r.handle.pointer ↔ registered r.handle.pointer r.past = false := by
  have key : r.now.state.values r.handle.pointer = registered r.handle.pointer r.past := by
    rw [run_key r.goesOn, registered, past]
    obtain ⟨c, taken, -⟩ := Bridge.run_cons r.goesOn
    obtain ⟨m, named, -, -⟩ := Bridge.step_performs taken
    have erases := moment_erases r.frees named
    rw [Bridge.history_cons taken, named]
    simp [keyAfter, erases, Prim.onKey]
  rw [harmlessFree_iff, key]

end FreedRun

/-- Thread 0 calls `freeValue`, up to the native part. -/
def entersFree (id : Nat) (p : Addr) : List BridgeLabel :=
  [.event (.spawn 0 (.freeValue (some (.handle id .jsObject p 0)))), .event (.javaStep 0),
    .call (.native 0)]

def leavesFree : List BridgeLabel := [.tau, .answer .unit, .tau, .event (.retire 0)]

theorem freed_twice : ∃ r : FreedRun, HarmlessFree r.now.state r.handle.pointer := by
  have ran : ∃ c, bridge.run (constructing ++ evaluatesTo 10 [.alloc 10 (some .plain)] false ++
      entersFree 0 10) (initial 1 fun _ => []) = some c ∧
      (∃ next, c.control = .native (.prim (.valuesErase 10) next)) ∧
      ∃ d, bridge.run (.tau :: leavesFree) c = some d ∧
        ⟨.jsObject, 10, 0, 2, false, true⟩ ∈ d.state.handles ∧
        registered 10 (bridge.history (.tau :: leavesFree) c) = false := by
    refine ⟨_, rfl, ⟨_, rfl⟩, ?_⟩
    refine ⟨_, rfl, ?_, ?_⟩
    · exact List.mem_cons_self
    · rfl
  obtain ⟨c, ran, ⟨next, frees⟩, d, goesOn, known, none⟩ := ran
  refine ⟨⟨1, _, _, c, ran, ⟨.jsObject, 10, 0, 2, false, true⟩, next, frees, leavesFree, d, goesOn,
    known, rfl⟩, ?_⟩
  exact (FreedRun.freed_again_iff _).2 none

/-- The object is destroyed and the next one is made at its address: to free the first handle
    again frees the second. -/
theorem reused_address_freed : ¬ ∀ r : FreedRun, HarmlessFree r.now.state r.handle.pointer := by
  intro harmless
  have ran : ∃ c, bridge.run (constructing ++ evaluatesTo 10 [.alloc 10 (some .plain)] false ++
      entersFree 0 10) (initial 1 fun _ => []) = some c ∧
      (∃ next, c.control = .native (.prim (.valuesErase 10) next)) ∧
      ∃ d, bridge.run (.tau :: (leavesFree ++ evaluatesTo 10 [.alloc 10 (some .plain)] false)) c = some d ∧
        ⟨.jsObject, 10, 0, 2, false, true⟩ ∈ d.state.handles ∧ d.state.values 10 = true := by
    refine ⟨_, rfl, ⟨_, rfl⟩, ?_⟩
    refine ⟨_, rfl, ?_, ?_⟩
    · exact List.mem_cons_self
    · rfl
  obtain ⟨c, ran, ⟨next, frees⟩, d, goesOn, known, again⟩ := ran
  have none := harmlessFree_iff.1 (harmless ⟨1, _, _, c, ran, ⟨.jsObject, 10, 0, 2, false, true⟩, next,
    frees, _, d, goesOn, known, rfl⟩)
  replace none : d.state.values 10 = false := none
  rw [again] at none
  cases none

end QuickJSBridge
