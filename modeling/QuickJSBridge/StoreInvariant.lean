import QuickJSBridge.ReferenceCounts

/- The wrapper's programs keep the store: one lemma for each command and each function, in
   the form that continues with whatever comes next. Only freeing a handle's address asks
   for more than the invariant. -/
namespace QuickJSBridge
open HostProgram ReentrantMachine

abbrev Secure {R : Type} (below : Addr → Nat) (Q : R → World → Prop) (p : Program R) (w : World) :
    Prop :=
  bridge.Safe Kept HandlesLive below Q p w

section Commands
variable {R S : Type} {below ρ : Addr → Nat} {w w' : World} {v : JSValue}

def taken (e : EngineCall) : Addr → Nat :=
  match e.consumed with
  | none => 0
  | some v => owned v

theorem depart_kept {held : Addr → Nat} {e : EngineCall} (kept : Kept (held + taken e) w)
    (leaves : depart (.engine e) w = some w') : Kept held w' := by
  simp only [depart, departEngine] at leaves
  unfold taken at kept
  split at leaves
  next alive =>
    split at leaves
    next v => exact kept_free kept leaves
    next =>
      split at leaves
      next v consumes =>
        rw [consumes] at kept
        exact kept_take kept leaves
      next keeps =>
        rw [keeps] at kept
        cases leaves
        simpa using kept
  next => cases leaves

theorem deliver_kept {held : Addr → Nat} {e : EngineCall} {a : Answer} (kept : Kept held w)
    (answers : deliver (.engine e) a w = some w') : Kept (held + owned a.toValue) w' := by
  have same : Kept (held + 0) w := by simpa using kept
  simp only [deliver] at answers
  unfold deliverEngine at answers
  split at answers
  case h_4 =>
    obtain ⟨c, -, answers⟩ := Option.bind_eq_some_iff.1 answers
    exact kept_give kept (of_ite_some answers)
  case h_8 =>
    split at answers
    · cases answers
    · cases answers
      exact same
  all_goals first
    | (cases answers; done)
    | exact kept_give kept answers
    | exact kept_give kept (of_ite_some answers)

theorem deliver_java_kept {held : Addr → Nat} {f : JSCallFunction} {args : List (Option JavaObject)}
    {a : Answer} (kept : Kept held w) (answers : deliver (.java f args) a w = some w') :
    Kept held w' := by
  unfold deliver at answers
  split at answers
  next same => cases same
  next =>
    cases of_ite_some answers
    exact kept
  next =>
    cases of_ite_some answers
    exact kept_congr kept rfl rfl rfl rfl rfl rfl
  next => cases answers

def Prim.inert : Prim → Bool
  | .newObject _ _ _ _ _ | .getException | .getGlobalObject | .dupValue _ => false
  | .setFuncCallback _ _ _ | .valuesInsert _ | .valuesErase _ | .rejectionsPop => false
  | _ => true

theorem exec_kept {held : Addr → Nat} {c : Prim} {a : Answer} (inert : c.inert = true)
    (kept : Kept held w) (acts : exec c w = some (a, w')) : Kept held w' := by
  unfold exec at acts
  split at acts
  case h_18 =>
    obtain ⟨object, -, acts⟩ := Option.map_eq_some_iff.1 acts
    cases acts
    exact kept
  case h_21 =>
    split at acts
    · cases acts
    · cases acts
      exact kept_congr kept rfl rfl rfl rfl rfl rfl
  all_goals first
    | (cases inert; done)
    | (cases acts; exact kept)
    | (cases acts; exact kept_congr kept rfl rfl rfl rfl rfl rfl)
    | (cases of_ite_some acts; exact kept)

theorem secure_prim {Q : R → World → Prop} {c : Prim} {next : Answer → Program R}
    (inert : c.inert = true) (kept : Kept (below + ρ) w)
    (rest : ∀ a w', exec c w = some (a, w') → Kept (below + ρ) w' → Secure below Q (next a) w') :
    Secure below Q (.prim c next) w := fun a w' acts =>
  have kept' := exec_kept inert kept acts
  ⟨kept_live kept', rest a w' acts kept'⟩

theorem secure_act {Q : Unit → World → Prop} {c : Prim} (inert : c.inert = true)
    (kept : Kept (below + ρ) w) (next : ∀ w', Kept (below + ρ) w' → Q () w') :
    Secure below Q (act c) w :=
  secure_prim inert kept fun _ w' _ kept' => next w' kept'

theorem secure_ask {Q : Bool → World → Prop} {c : Prim} (inert : c.inert = true)
    (kept : Kept (below + ρ) w) (next : ∀ b w', Kept (below + ρ) w' → Q b w') :
    Secure below Q (ask c) w :=
  secure_prim inert kept fun a w' _ kept' => next a.toBool w' kept'

theorem secure_askJava {Q : Option JavaObject → World → Prop} {c : Prim} (inert : c.inert = true)
    (kept : Kept (below + ρ) w) (next : ∀ o w', Kept (below + ρ) w' → Q o w') :
    Secure below Q (askJava c) w :=
  secure_prim inert kept fun a w' _ kept' => next a.toJava w' kept'

theorem secure_askInt {Q : Int32 → World → Prop} {c : Prim} (inert : c.inert = true)
    (kept : Kept (below + ρ) w) (next : ∀ n w', Kept (below + ρ) w' → Q n w') :
    Secure below Q (askInt c) w :=
  secure_prim inert kept fun a w' _ kept' => next a.toInt w' kept'

theorem secure_call {Q : R → World → Prop} {e : EngineCall} {next : Answer → Program R}
    (kept : Kept (below + ρ + taken e) w)
    (rest : ∀ a w', Kept (below + ρ + owned a.toValue) w' → Secure below Q (next a) w') :
    Secure below Q (.enter (.engine e) next) w :=
  ⟨ρ, fun _ leaves => depart_kept kept leaves, fun a _ w' kept' answers =>
    have back := deliver_kept kept' answers
    ⟨kept_live back, rest a w' back⟩⟩

theorem drop_owned {g : Addr → Nat} (kept : Kept (below + ρ + g) w) : Kept (below + ρ) w :=
  kept_weaken (fun p => by simp) kept

theorem secure_enterValue {Q : JSValue → World → Prop} {e : EngineCall}
    (kept : Kept (below + ρ + taken e) w)
    (next : ∀ v w', Kept (below + ρ + owned v) w' → Q v w') :
    Secure below Q (enterValue e) w :=
  secure_call kept fun a w' kept' => next a.toValue w' kept'

theorem secure_enterInt {Q : Int32 → World → Prop} {e : EngineCall}
    (kept : Kept (below + ρ + taken e) w) (next : ∀ n w', Kept (below + ρ) w' → Q n w') :
    Secure below Q (enterInt e) w :=
  secure_call kept fun a w' kept' => next a.toInt w' (drop_owned kept')

theorem secure_enterText {Q : Option (List UInt8) → World → Prop} {e : EngineCall}
    (kept : Kept (below + ρ + taken e) w) (next : ∀ text w', Kept (below + ρ) w' → Q text w') :
    Secure below Q (enterText e) w :=
  secure_call kept fun a w' kept' => next a.toText w' (drop_owned kept')

theorem secure_enter {Q : Unit → World → Prop} {e : EngineCall}
    (kept : Kept (below + ρ + taken e) w) (next : ∀ w', Kept (below + ρ) w' → Q () w') :
    Secure below Q (enter e) w :=
  secure_call kept fun _ w' kept' => next w' (drop_owned kept')

theorem secure_freeValue {Q : Unit → World → Prop} (kept : Kept (below + ρ + owned v) w)
    (next : ∀ w', Kept (below + ρ) w' → Q () w') : Secure below Q (freeValue v) w := by
  unfold freeValue
  split
  next uncounted =>
    rw [owned_of_none uncounted, add_zero] at kept
    exact next w kept
  next => exact secure_enter kept next

theorem secure_getStringUTFChars {Q : List UInt8 → World → Prop} {env : JNIEnv} {s : JavaString}
    (kept : Kept (below + ρ) w) (next : ∀ bytes w', Kept (below + ρ) w' → Q bytes w') :
    Secure below Q (getStringUTFChars env s) w :=
  secure_prim rfl kept fun a w' _ kept' => next (a.toText.getD []) w' kept'

theorem secure_newStringUTF {Q : Option JavaObject → World → Prop} {env : JNIEnv}
    {text : Option (List UInt8)} (kept : Kept (below + ρ) w)
    (next : ∀ o w', Kept (below + ρ) w' → Q o w') : Secure below Q (newStringUTF env text) w := by
  cases text with
  | none => trivial
  | some bytes => exact secure_askJava rfl kept next

theorem secure_getException {Q : JSValue → World → Prop} (kept : Kept (below + ρ) w)
    (next : ∀ v w', Kept (below + ρ + owned v) w' → Q v w') :
    Secure below Q (askValue .getException) w := by
  intro a w' acts
  cases acts
  have kept' := kept_getException kept
  exact ⟨kept_live kept', next _ _ kept'⟩

theorem secure_getGlobalObject {Q : JSValue → World → Prop} (kept : Kept (below + ρ) w)
    (next : ∀ w', Kept (below + ρ + one w'.globalObj) w' → Q (.object w'.globalObj) w') :
    Secure below Q (askValue .getGlobalObject) w := by
  intro a w' acts
  obtain ⟨u, retained, acts⟩ := Option.map_eq_some_iff.1 acts
  cases acts
  have same : w'.globalObj = w.globalObj := by
    obtain ⟨c, -, rfl⟩ := Option.map_eq_some_iff.1 retained
    rfl
  have kept' := kept_retain kept retained
  rw [← same] at kept' ⊢
  exact ⟨kept_live kept', next _ kept'⟩

theorem secure_dupValue {Q : Unit → World → Prop} (kept : Kept (below + ρ) w)
    (next : ∀ w', Kept (below + ρ + owned v) w' → Q () w') :
    Secure below Q (act (.dupValue v)) w := by
  intro a w' acts
  obtain ⟨u, retained, acts⟩ := Option.map_eq_some_iff.1 acts
  cases acts
  have kept' := kept_dupValue kept retained
  exact ⟨kept_live kept', next _ kept'⟩

theorem secure_setFuncCallback {Q : Unit → World → Prop} {id : Int32} {source : JSCallFunction}
    (kept : Kept (below + ρ) w) (next : ∀ w', Kept (below + ρ) w' → Q () w') :
    Secure below Q (act (.setFuncCallback v id source)) w := by
  intro a w' acts
  obtain ⟨p, -, acts⟩ := Option.bind_eq_some_iff.1 acts
  obtain ⟨c, here, acts⟩ := Option.map_eq_some_iff.1 acts
  cases acts
  have enough := kept.covered p
  have reserved := kept.global p
  rw [refs_of_cell here, engineRefs_of_cell here] at enough
  rw [engineRefs_of_cell here] at reserved
  have kept' : Kept (below + ρ) (w.setCell p (some { c with callback := some ⟨id, source⟩ })) :=
    kept_setCell kept here _ rfl enough (fun _ _ => Nat.le_refl _) reserved
  exact ⟨kept_live kept', next _ kept'⟩

theorem kept_plain {held : Addr → Nat} {e : EngineCall} (plain : e.consumed = none)
    (kept : Kept held w) : Kept (held + taken e) w := by
  simpa [taken, plain] using kept

end Commands

section Marshalling
variable {below ρ : Addr → Nat} {w w' : World} {p : Addr} {v : JSValue} {env : JNIEnv}

def HandlePending (p : Addr) (held : Addr → Nat) (w : World) : Prop :=
  ∃ hs h, w.handles = hs ++ [h] ∧ Kept held { w with handles := hs } ∧ h.pointer = p ∧ w.Denotes h

theorem pending_live {held : Addr → Nat} (pending : HandlePending p held w) : HandlesLive w := by
  obtain ⟨hs, h, all, kept, -, denotes⟩ := pending
  intro h' member mine unfreed
  rw [all] at member
  rcases List.mem_append.1 member with older | newest
  · exact (kept.handles h' older mine unfreed).2
  · cases List.mem_singleton.1 newest
    exact denotes

theorem kept_of_pending {held : Addr → Nat} (pending : HandlePending p held w)
    (present : p = w.globalObj ∨ w.values p = true) : Kept held w := by
  obtain ⟨hs, h, all, kept, rfl, denotes⟩ := pending
  refine ⟨kept.covered, kept.global, kept.queue, fun h' member mine unfreed => ?_⟩
  rw [all] at member
  rcases List.mem_append.1 member with older | newest
  · exact kept.handles h' older mine unfreed
  · cases List.mem_singleton.1 newest
    exact ⟨present, denotes⟩

theorem kept_insert {held : Addr → Nat} (kept : Kept (held + one p) w)
    (absent : w.values p = false) :
    Kept held { w with values := Function.update w.values p true } where
  covered q := by
    have enough := kept.covered q
    rw [Pi.add_apply] at enough
    unfold World.valuesRefs at enough ⊢
    by_cases same : q = p
    · subst same
      simp only [absent, one_self, Bool.false_eq_true, if_false] at enough
      change w.engineRefs q + owned w.exception q +
        (if Function.update w.values q true q = true then 1 else 0) + held q ≤ w.refs q
      simp only [Function.update_self, if_true]
      omega
    · simp only [one_other same] at enough
      change w.engineRefs q + owned w.exception q +
        (if Function.update w.values p true q = true then 1 else 0) + held q ≤ w.refs q
      simpa [same] using enough
  global := kept.global
  queue := kept.queue
  handles h member mine unfreed := by
    obtain ⟨held, denotes⟩ := kept.handles h member mine unfreed
    refine ⟨held.imp id fun present => ?_, denotes⟩
    by_cases same : h.pointer = p
    · simp [same]
    · simpa [same] using present

theorem pending_insert {held : Addr → Nat} (pending : HandlePending p (held + one p) w)
    (absent : w.values p = false) :
    Kept held { w with values := Function.update w.values p true } := by
  obtain ⟨hs, h, all, kept, here, denotes⟩ := pending
  have older : Kept held { w with handles := hs, values := Function.update w.values p true } :=
    kept_insert kept absent
  exact kept_of_pending ⟨hs, h, all, older, here, denotes⟩ (Or.inr (by simp))

theorem pending_newObject {held : Addr → Nat} {cls : HandleClass} {thisObj : JSValue} {a : Answer}
    {borrowed : Bool} (kept : Kept (held + one p) w)
    (acts : exec (.newObject env cls thisObj p borrowed) w = some (a, w')) :
    HandlePending p (held + one p) w' := by
  cases acts
  refine ⟨w.handles, _, rfl, kept, rfl, ?_⟩
  have enough := kept.covered p
  rw [Pi.add_apply, one_self] at enough
  cases here : w.heap p with
  | none =>
    simp only [World.refs, here, Option.map_none, Option.getD_none] at enough
    omega
  | some c => exact ⟨c, here, by simp [World.serialAt, here]⟩

theorem secure_newObject {Q : Option JavaObject → World → Prop} {cls : HandleClass}
    {thisObj : JSValue} (kept : Kept (below + ρ + one p) w)
    (next : ∀ o w', HandlePending p (below + ρ + one p) w' → Q o w') :
    Secure below Q (askJava (.newObject env cls thisObj p false)) w := by
  intro a w' acts
  have made : exec (.newObject env cls thisObj p false) w = some (a, w') := acts
  have pending := pending_newObject kept made
  exact ⟨pending_live pending, next _ w' pending⟩

theorem secure_newHandle {Q : Option JavaObject → World → Prop} {thisObj : JSValue}
    (kept : Kept (below + ρ + one p) w)
    (next : ∀ o w', HandlePending p (below + ρ + one p) w' → Q o w') :
    Secure below Q (newHandle env thisObj (.object p) false) w := by
  rw [add_assoc] at kept
  refine Bridge.safe_bind (secure_ask rfl kept fun isFunction w₁ kept₁ => ?_)
  split
  · rw [← add_assoc] at kept₁
    exact secure_newObject kept₁ next
  · refine Bridge.safe_bind (secure_enterInt (kept_plain rfl kept₁) fun isArray w₂ kept₂ => ?_)
    rw [← add_assoc] at kept₂
    split
    · exact secure_newObject kept₂ next
    · exact secure_newObject kept₂ next

theorem secure_keepValue {Q : Unit → World → Prop}
    (pending : HandlePending p (below + ρ + one p) w)
    (next : ∀ w', Kept (below + ρ) w' → Q () w') :
    Secure below Q (keepValue (.object p)) w := by
  intro a w' acts
  cases acts
  refine ⟨pending_live pending, ?_⟩
  change Secure below Q (if w.values p = true then freeValue (.object p)
    else act (.valuesInsert p)) w
  split
  next present =>
    refine secure_freeValue ?_ next
    rw [owned_object]
    exact kept_of_pending pending (Or.inr present)
  next absent =>
    intro a w' acts
    cases acts
    have kept := pending_insert pending (by simpa using absent)
    exact ⟨kept_live kept, next _ kept⟩

/-- A result of an operation: the reference ends up in `values` or is given back. -/
theorem secure_toJavaObject {Q : Option JavaObject → World → Prop} {thisObj : JSValue}
    (kept : Kept (below + ρ + owned v) w) (next : ∀ o w', Kept (below + ρ) w' → Q o w') :
    Secure below Q (toJavaObject env thisObj v true) w := by
  have rest : Kept (below + ρ) w := drop_owned kept
  cases v with
  | object p =>
    rw [owned_object] at kept
    refine Bridge.safe_bind (secure_newHandle kept fun o w₁ pending => ?_)
    exact Bridge.safe_bind (secure_keepValue pending fun w₂ kept₂ => next o w₂ kept₂)
  | string p s =>
    rw [add_assoc] at kept
    refine Bridge.safe_bind (secure_enterText (kept_plain rfl kept) fun text w₁ kept₁ => ?_)
    refine Bridge.safe_bind (secure_newStringUTF kept₁ fun o w₂ kept₂ => ?_)
    rw [← add_assoc] at kept₂
    exact Bridge.safe_bind (secure_freeValue kept₂ fun w₃ kept₃ => next o w₃ kept₃)
  | float64 d =>
    unfold toJavaObject
    dsimp only
    split
    · exact secure_askJava rfl rest next
    · exact secure_askJava rfl rest next
  | bool b => exact secure_askJava rfl rest next
  | int n => exact secure_askJava rfl rest next
  | bigInt p n => exact secure_askJava rfl rest next
  | exception => exact next none w rest
  | undefined => exact next none w rest
  | null => exact next none w rest
  | symbol p => exact next none w rest
  | bigFloat p => exact next none w rest
  | bigDecimal p => exact next none w rest
  | functionBytecode p => exact next none w rest
  | module p => exact next none w rest

theorem kept_borrowed {held : Addr → Nat} {cls : HandleClass} {thisObj : JSValue} {pointer : Nat}
    {a : Answer} (kept : Kept held w)
    (acts : exec (.newObject env cls thisObj pointer true) w = some (a, w')) : Kept held w' := by
  cases acts
  refine ⟨kept.covered, kept.global, kept.queue, fun h member mine unfreed => ?_⟩
  rcases List.mem_append.1 member with older | newest
  · exact kept.handles h older mine unfreed
  · cases List.mem_singleton.1 newest
    cases mine

theorem secure_borrowed {Q : Option JavaObject → World → Prop} {cls : HandleClass}
    {thisObj : JSValue} {pointer : Nat} (kept : Kept (below + ρ) w)
    (next : ∀ o w', Kept (below + ρ) w' → Q o w') :
    Secure below Q (askJava (.newObject env cls thisObj pointer true)) w := by
  intro a w' acts
  have made : exec (.newObject env cls thisObj pointer true) w = some (a, w') := acts
  have kept' := kept_borrowed kept made
  exact ⟨kept_live kept', next a.toJava w' kept'⟩

theorem secure_toJavaArgument {Q : Option JavaObject → World → Prop} {thisObj : JSValue}
    (kept : Kept (below + ρ) w) (next : ∀ o w', Kept (below + ρ) w' → Q o w') :
    Secure below Q (toJavaObject env thisObj v false) w := by
  cases v with
  | object p =>
    refine Bridge.safe_bind (Bridge.safe_bind (secure_ask rfl kept fun isFunction w₁ kept₁ => ?_))
    split
    · exact secure_borrowed kept₁ next
    · refine Bridge.safe_bind (secure_enterInt (kept_plain rfl kept₁) fun isArray w₂ kept₂ => ?_)
      split
      · exact secure_borrowed kept₂ next
      · exact secure_borrowed kept₂ next
  | string p s =>
    refine Bridge.safe_bind (secure_enterText (kept_plain rfl kept) fun text w₁ kept₁ => ?_)
    exact Bridge.safe_bind (secure_newStringUTF kept₁ next)
  | float64 d =>
    unfold toJavaObject
    dsimp only
    split
    · exact secure_askJava rfl kept next
    · exact secure_askJava rfl kept next
  | bool b => exact secure_askJava rfl kept next
  | int n => exact secure_askJava rfl kept next
  | bigInt p n => exact secure_askJava rfl kept next
  | exception => exact next none w kept
  | undefined => exact next none w kept
  | null => exact next none w kept
  | symbol p => exact next none w kept
  | bigFloat p => exact next none w kept
  | bigDecimal p => exact next none w kept
  | functionBytecode p => exact next none w kept
  | module p => exact next none w kept

def converted (o : Option JavaObject) (v : JSValue) : Addr → Nat :=
  match o with
  | some (.handle _ _ _ _) => 0
  | _ => owned v

theorem secure_toJSValue {Q : JSValue → World → Prop} {o : Option JavaObject}
    (kept : Kept (below + ρ) w) (next : ∀ v w', Kept (below + ρ + converted o v) w' → Q v w') :
    Secure below Q (toJSValue env o) w := by
  cases o with
  | none => exact next _ w (by simpa [converted] using kept)
  | some o =>
    cases o with
    | string s =>
      refine Bridge.safe_bind (secure_getStringUTFChars kept fun bytes w₁ kept₁ => ?_)
      exact secure_enterValue (kept_plain rfl kept₁) next
    | double d =>
      refine Bridge.safe_bind (secure_act rfl kept fun w₁ kept₁ => next _ w₁ ?_)
      have uncounted : (newFloat64 d).addr? = none := by
        unfold newFloat64
        split <;> rfl
      simpa [converted, owned_of_none uncounted] using kept₁
    | integer n =>
      refine Bridge.safe_bind (secure_act rfl kept fun w₁ kept₁ => next _ w₁ ?_)
      have uncounted : (JSValue.int n).addr? = none := rfl
      simpa [converted, owned_of_none uncounted] using kept₁
    | long n =>
      refine Bridge.safe_bind (secure_act rfl kept fun w₁ kept₁ => ?_)
      split
      · exact secure_enterValue (kept_plain rfl kept₁) next
      · have uncounted : (newInt64 n).addr? = none := by
          unfold newInt64
          split <;> rfl
        exact next _ w₁ (by simpa [converted, owned_of_none uncounted] using kept₁)
    | boolean b =>
      refine Bridge.safe_bind (secure_act rfl kept fun w₁ kept₁ => next _ w₁ ?_)
      have uncounted : (JSValue.bool b).addr? = none := rfl
      simpa [converted, owned_of_none uncounted] using kept₁
    | handle id cls pointer objPointer =>
      refine Bridge.safe_bind (secure_act rfl kept fun w₁ kept₁ => next _ w₁ ?_)
      simpa [converted] using kept₁
    | callFunction f =>
      refine Bridge.safe_bind (secure_enterValue (kept_plain rfl kept) fun v w₁ kept₁ => ?_)
      rw [add_assoc] at kept₁
      refine Bridge.safe_bind (secure_askInt rfl kept₁ fun id w₂ kept₂ => ?_)
      refine Bridge.safe_bind (secure_setFuncCallback kept₂ fun w₃ kept₃ => next v w₃ ?_)
      rwa [← add_assoc] at kept₃
    | other className =>
      refine Bridge.safe_bind (secure_act rfl kept fun w₁ kept₁ => next _ w₁ ?_)
      simpa [converted] using kept₁

end Marshalling
end QuickJSBridge
