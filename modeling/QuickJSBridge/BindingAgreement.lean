import QuickJSBridge.ScriptContexts

/- The two copies of the engine scope over a sequence of updates. -/
namespace QuickJSBridge
open HostProgram ReentrantMachine ScriptObjects

section Agreement

def Lacks (o : ObjectData) (name : JavaString) : Prop := o.own (exactKey name) = none

def AgreesOn (w : World) (o : ObjectData) (b : Bindings) (name : JavaString) : Prop :=
  match b name with
  | some value => Bound w o ⟨name, value⟩
  | none => Lacks o name

/-- Both sides agree on every name that has been used. -/
def Agreed (S : Setting) (s : ContextState) (used : JavaString → Prop) : Prop :=
  ∃ o, HasGlobal S s o ∧ ∀ name, used name → AgreesOn s.engine.1 o s.context.bindings name

def ContextCall.names (c : ScriptContext) : ContextCall → JavaString → Prop
  | .put name _ => fun n => checkKey name = .ok n
  | .setAttribute name _ | .removeAttribute name => fun n => checkName name = .ok n
  | .setBindings none _ => fun _ => False
  | .setBindings (some b) _ => fun n => (c.contents b n).isSome = true

/-- No value of a type that is not supported. -/
def ContextCall.supports (c : ScriptContext) : ContextCall → Prop
  | .put _ value | .setAttribute _ value => supported value = true
  | .removeAttribute _ | .setBindings none _ => True
  | .setBindings (some b) _ => ∀ n value, c.contents b n = some value → supported value = true

def Alike (value value' : Option JavaObject) : Prop :=
  ∀ w c, Converted value c → MadeFor w value c → Converted value' c ∧ MadeFor w value' c

/-- What the call binds is written to the global object, under the name itself, and otherwise the
    Java side has nothing to change: put finds a value like its own, nothing is removed, and no
    name is dropped with the old Bindings object. -/
def ContextCall.Fits (S : Setting) (s : ContextState) (used : JavaString → Prop) : ContextCall → Prop
  | .put name value => ∀ n, checkKey name = .ok n → ∃ old, s.context.bindings n = some old ∧ Alike old value
  | .setAttribute name value => ∀ n, checkName name = .ok n →
      OwnKey S s.engine.2 n ∧ Accepts s.global s.engine ⟨n, value⟩
  | .removeAttribute name => ∀ n, checkName name = .ok n → s.context.bindings n = none ∧
      (used n ∨ ∃ o, s.engine.2.store s.global = some o ∧ Lacks o n)
  | .setBindings none _ => True
  | .setBindings (some b) attributes => Clear S s.engine.2 attributes ∧
      (∀ x ∈ attributes, Accepts s.global s.engine x) ∧
      ∀ n, (s.context.bindings n).isSome = true → (s.context.contents b n).isSome = true

def Between (S : Setting) (s s' : ContextState) (used : JavaString → Prop) : Prop :=
  s'.context.bindings = s.context.bindings ∧ ∀ o, HasGlobal S s o → ∃ o', HasGlobal S s' o' ∧
    ∀ n, used n → Still s.engine.1 s'.engine.1 o o' (exactKey n)

/-- States after updates of these kinds, with the names that have been used. -/
inductive Updated (S : Setting) (allow : ContextCall → ContextState → (JavaString → Prop) → Prop) :
    ContextState → (JavaString → Prop) → Prop where
  | start {s : ContextState} {o : ObjectData} (global : HasGlobal S s o)
      (empty : s.context.bindings = fun _ => none) : Updated S allow s fun _ => False
  | call {s s' : ContextState} {used : JavaString → Prop} {c : ContextCall} {a : Answer}
      (before : Updated S allow s used) (allowed : allow c s used) (performs : c.Performs S s a s') :
      Updated S allow s' fun n => used n ∨ c.names s.context n
  | between {s s' : ContextState} {used : JavaString → Prop} (before : Updated S allow s used)
      (between : Between S s s' used) : Updated S allow s' used

variable {S : Setting} {s s' : ContextState} {used : JavaString → Prop} {w w' : World} {o o' : ObjectData}
  {b : Bindings} {n m : JavaString} {a : Answer}

theorem agreesOn_still (agrees : AgreesOn w o b n) (still : Still w w' o o' (exactKey n)) :
    AgreesOn w' o' b n := by
  unfold AgreesOn at agrees ⊢
  cases has : b n with
  | some value =>
    simp only [has] at agrees
    exact bound_still agrees still
  | none =>
    simp only [has] at agrees
    exact still.1.trans agrees

theorem agreesOn_other {x : Option (Option JavaObject)} (agrees : AgreesOn w o b m) (other : m ≠ n) :
    AgreesOn w o (Function.update b n x) m := by
  unfold AgreesOn
  rw [Function.update_of_ne other]
  exact agrees

theorem agreesOn_bound {value : Option JavaObject} (bound : Bound w o ⟨n, value⟩) :
    AgreesOn w o (Function.update b n (some value)) n := by
  unfold AgreesOn
  rw [Function.update_self]
  exact bound

theorem bound_of_agrees {value : Option JavaObject} (agrees : AgreesOn w o b n) (has : b n = some value) :
    Bound w o ⟨n, value⟩ := by
  unfold AgreesOn at agrees
  rw [has] at agrees
  exact agrees

theorem lacks_of_agrees (agrees : AgreesOn w o b n) (none : b n = none) : Lacks o n := by
  unfold AgreesOn at agrees
  rw [none] at agrees
  exact agrees

theorem bound_alike {value value' : Option JavaObject} (bound : Bound w o ⟨n, value⟩)
    (alike : Alike value value') : Bound w o ⟨n, value'⟩ := by
  obtain ⟨c, writable, own, converted, sound, made⟩ := bound
  obtain ⟨converted', made'⟩ := alike w c converted made
  exact ⟨c, writable, own, converted', sound, made'⟩

theorem hasGlobal_filled {attributes : List Attribute} (global : HasGlobal S s o)
    (clear : Clear S s.engine.2 attributes) (accepts : ∀ x ∈ attributes, Accepts s.global s.engine x)
    (distinct : (attributes.map Attribute.name).Nodup)
    (back : ComesBack S (Java.writeGlobal attributes) s.engine a s'.engine) :
    ∃ o', HasGlobal S s' o' ∧ Filled attributes s.engine.1 s'.engine.1 o o' := by
  obtain ⟨o', there, filled⟩ := writeGlobal_fills global.held global.here global.plain global.sparse clear
    accepts (keys_apart distinct) back
  obtain ⟨h, run⟩ := back
  have same : s'.global = s.global := (grounds_storedJava run).1
  refine ⟨o', ⟨?_, ?_, filled.plain, filled.sparse⟩, filled⟩
  · rw [same]
    exact global.held
  · rw [same]
    exact there

def InStep (S : Setting) (s : ContextState) (used : JavaString → Prop) : Prop :=
  Agreed S s used ∧ ∀ n, (s.context.bindings n).isSome = true → used n

theorem InStep.mono {more : JavaString → Prop} (inStep : InStep S s used)
    (fewer : ∀ m, more m → used m) (bound : ∀ m, (s.context.bindings m).isSome = true → more m) :
    InStep S s more := by
  obtain ⟨⟨o, global, agrees⟩, -⟩ := inStep
  exact ⟨⟨o, global, fun m was => agrees m (fewer m was)⟩, bound⟩

theorem inStep_failed {e : JavaException} {checked : Except JavaException JavaString} (inStep : InStep S s used)
    (failed : checked = .error e) : InStep S s fun m => used m ∨ checked = .ok m := by
  refine inStep.mono ?_ fun m bound => Or.inl (inStep.2 m bound)
  rintro m (before | now)
  · exact before
  · cases failed.symm.trans now

theorem inStep_checked {checked : Except JavaException JavaString} (passed : checked = .ok n)
    (inStep : InStep S s fun m => used m ∨ m = n) : InStep S s fun m => used m ∨ checked = .ok m := by
  refine inStep.mono ?_ fun m bound => (inStep.2 m bound).imp_right fun same => by rw [same, passed]
  rintro m (before | now)
  · exact Or.inl before
  · cases passed.symm.trans now
    exact Or.inr rfl

theorem bound_update {x : Option (Option JavaObject)}
    (bound : ∀ m, (s.context.bindings m).isSome = true → used m)
    (m : JavaString) (now : ((s.context.update n x).bindings m).isSome = true) : used m ∨ m = n := by
  rw [bindings_update] at now
  by_cases same : m = n
  · exact Or.inr same
  · rw [Function.update_of_ne same] at now
    exact Or.inl (bound m now)

theorem inStep_put {value old : Option JavaObject} (inStep : InStep S s used)
    (has : s.context.bindings n = some old) (alike : Alike old value) :
    InStep S { s with context := s.context.update n (some value) } fun m => used m ∨ m = n := by
  obtain ⟨⟨o, global, agrees⟩, bound⟩ := inStep
  have known : used n := bound n (by rw [has]; rfl)
  refine ⟨⟨o, ⟨global.held, global.here, global.plain, global.sparse⟩, fun m was => ?_⟩, bound_update bound⟩
  dsimp only
  rw [bindings_update]
  by_cases same : m = n
  · subst same
    exact agreesOn_bound (bound_alike (bound_of_agrees (agrees m known) has) alike)
  · exact agreesOn_other (agrees m (was.resolve_right same)) same

theorem inStep_remove (inStep : InStep S s used) (absent : s.context.bindings n = none)
    (lacks : used n ∨ ∃ o, s.engine.2.store s.global = some o ∧ Lacks o n) :
    InStep S { s with context := s.context.update n none } fun m => used m ∨ m = n := by
  obtain ⟨⟨o, global, agrees⟩, bound⟩ := inStep
  have none : Lacks o n := by
    rcases lacks with known | ⟨o', here, lacks⟩
    · exact lacks_of_agrees (agrees n known) absent
    · cases here.symm.trans global.here
      exact lacks
  refine ⟨⟨o, ⟨global.held, global.here, global.plain, global.sparse⟩, fun m was => ?_⟩, bound_update bound⟩
  dsimp only
  rw [bindings_update]
  by_cases same : m = n
  · subst same
    unfold AgreesOn
    rw [Function.update_self]
    exact none
  · exact agreesOn_other (agrees m (was.resolve_right same)) same

theorem inStep_set {value : Option JavaObject} (inStep : InStep S s used) (own : OwnKey S s.engine.2 n)
    (accepts : Accepts s.global s.engine ⟨n, value⟩) (context : s'.context = s.context.update n (some value))
    (back : ComesBack S (Java.writeGlobal [⟨n, value⟩]) s.engine a s'.engine) :
    InStep S s' fun m => used m ∨ m = n := by
  obtain ⟨⟨o, global, agrees⟩, bound⟩ := inStep
  have all : ∀ x ∈ [(⟨n, value⟩ : Attribute)], Accepts s.global s.engine x := by
    intro x member
    cases List.mem_singleton.1 member
    exact accepts
  obtain ⟨o', global', filled⟩ := hasGlobal_filled global (clear_single own) all (List.nodup_singleton _) back
  refine ⟨⟨o', global', fun m was => ?_⟩, ?_⟩
  · rw [context, bindings_update]
    by_cases same : m = n
    · subst same
      exact agreesOn_bound (filled.bound _ (List.mem_singleton_self _))
    · apply agreesOn_other _ same
      apply agreesOn_still (agrees m (was.resolve_right same))
      apply filled.others
      intro x member other
      cases List.mem_singleton.1 member
      exact same (exactKey_inj other).symm
  · rw [context]
    exact bound_update bound

theorem inStep_replace {new : Bindings} {attributes : List Attribute} (inStep : InStep S s used)
    (clear : Clear S s.engine.2 attributes) (accepts : ∀ x ∈ attributes, Accepts s.global s.engine x)
    (keeps : ∀ n, (s.context.bindings n).isSome = true → (new n).isSome = true)
    (enumerates : Enumerates attributes new) (now : s'.context.bindings = new)
    (back : ComesBack S (Java.writeGlobal attributes) s.engine a s'.engine) :
    InStep S s' fun m => used m ∨ (new m).isSome = true := by
  obtain ⟨distinct, lists⟩ := enumerates
  obtain ⟨⟨o, global, agrees⟩, -⟩ := inStep
  obtain ⟨o', global', filled⟩ := hasGlobal_filled global clear accepts distinct back
  refine ⟨⟨o', global', fun m was => ?_⟩, fun m bound => Or.inr (by rw [← now]; exact bound)⟩
  rw [now]
  unfold AgreesOn
  cases has : new m with
  | some value => exact filled.bound ⟨m, value⟩ ((lists _).2 has)
  | none =>
    have before : used m := by
      apply was.resolve_right
      rw [has]
      exact Bool.false_ne_true
    have absent : s.context.bindings m = none := by
      cases old : s.context.bindings m with
      | none => rfl
      | some value =>
        have still := keeps m (by rw [old]; rfl)
        rw [has] at still
        cases still
    have still : Still s.engine.1 s'.engine.1 o o' (exactKey m) := by
      apply filled.others
      intro y member same
      obtain rfl : y.name = m := exactKey_inj same
      cases has.symm.trans ((lists y).1 member)
    exact still.1.trans (lacks_of_agrees (agrees m before) absent)

theorem inStep_call {c : ContextCall} (inStep : InStep S s used) (fits : c.Fits S s used)
    (performs : c.Performs S s a s') : InStep S s' fun m => used m ∨ c.names s.context m := by
  unfold ContextCall.Performs at performs
  cases c with
  | put name value =>
    cases checked : checkKey name with
    | error e =>
      simp only [checked] at performs
      obtain ⟨-, rfl⟩ := performs
      exact inStep_failed inStep checked
    | ok n =>
      simp only [checked] at performs
      obtain ⟨-, rfl⟩ := performs
      obtain ⟨old, has, alike⟩ := fits n checked
      exact inStep_checked checked (inStep_put inStep has alike)
  | removeAttribute name =>
    cases checked : checkName name with
    | error e =>
      simp only [checked] at performs
      obtain ⟨-, rfl⟩ := performs
      exact inStep_failed inStep checked
    | ok n =>
      simp only [checked] at performs
      obtain ⟨-, rfl⟩ := performs
      obtain ⟨absent, lacks⟩ := fits n checked
      exact inStep_checked checked (inStep_remove inStep absent lacks)
  | setAttribute name value =>
    cases checked : checkName name with
    | error e =>
      simp only [checked] at performs
      obtain ⟨-, rfl⟩ := performs
      exact inStep_failed inStep checked
    | ok n =>
      simp only [checked] at performs
      obtain ⟨context, back⟩ := performs
      obtain ⟨own, accepts⟩ := fits n checked
      exact inStep_checked checked (inStep_set inStep own accepts context back)
  | setBindings bindings attributes =>
    cases bindings with
    | none =>
      obtain ⟨-, rfl⟩ := performs
      exact inStep.mono (fun m was => was.resolve_right id) fun m bound => Or.inl (inStep.2 m bound)
    | some b =>
      obtain ⟨enumerates, context, back⟩ := performs
      have now : s'.context.bindings = s.context.contents b := by
        rw [context]
        rfl
      obtain ⟨clear, accepts, keeps⟩ := fits
      exact inStep_replace inStep clear accepts keeps enumerates now back

theorem updated_inStep (updated : Updated S (fun c s used => c.Fits S s used) s used) : InStep S s used := by
  induction updated with
  | start global empty =>
    refine ⟨⟨_, global, nofun⟩, fun n bound => ?_⟩
    rw [empty] at bound
    cases bound
  | call before fits performs ih => exact inStep_call ih fits performs
  | @between s s' used before between ih =>
    obtain ⟨⟨o, global, agrees⟩, bound⟩ := ih
    obtain ⟨same, keeps⟩ := between
    obtain ⟨o', global', still⟩ := keeps o global
    refine ⟨⟨o', global', fun n was => ?_⟩, fun n has => bound n (by rw [← same]; exact has)⟩
    rw [same]
    exact agreesOn_still (agrees n was) (still n was)

/-- Over every sequence of such updates both sides agree. -/
theorem bindings_agree (updated : Updated S (fun c s used => c.Fits S s used) s used) : Agreed S s used :=
  (updated_inStep updated).1

def emptyObjects : Objects := .one 1 emptyObject fun _ => rfl

def emptyContext : ContextState :=
  ⟨⟨0, fun _ _ => none⟩, (World.fresh 1 fun _ => [], emptyObjects)⟩

theorem emptyContext_global : HasGlobal holdsAll emptyContext emptyObject :=
  ⟨trivial, rfl, rfl, rfl⟩

def heldWorld : World :=
  let kept : World := (World.fresh 1 fun _ => []).setCell 1 (some ⟨0, some .plain, 2, 1, none⟩)
  let held : World := { kept with handles := [⟨.jsObject, 1, 0, 0, false, false⟩] }
  held.setCell 1 (some ⟨0, some .plain, 1, 1, none⟩)

theorem emptyContext_gets : StoredReply holdsAll .getGlobalObject emptyContext.engine
    (.javaReturn (some (.handle 0 .jsObject 1 0))) (heldWorld, emptyObjects) := by
  let kept : World := (World.fresh 1 fun _ => []).setCell 1 (some ⟨0, some .plain, 2, 1, none⟩)
  let held : World := { kept with handles := [⟨.jsObject, 1, 0, 0, false, false⟩] }
  have frees : (stored holdsAll.roots).reply (.engine (.freeValue (.object 1))) (held, emptyObjects) .unit
      (heldWorld, emptyObjects) := by
    refine ⟨⟨heldWorld, heldWorld, [], rfl, rfl, rfl⟩,
      fun _ => ⟨⟨.refl _, fun n there => Or.inl there⟩, fun q _ => ?_⟩⟩
    by_cases same : q = 1
    · subst same
      rfl
    · exact congrArg (Option.bind · Cell.callback) (Function.update_of_ne same _ held.heap)
  have keeps : (stored holdsAll.roots).exec .getGlobalObject (World.fresh 1 fun _ => [], emptyObjects) =
      some (.value (.object 1), kept, emptyObjects) := rfl
  have makes : (stored holdsAll.roots).exec (.newObject (.ofThread 0) .jsObject .undefined 1 false)
    (kept, emptyObjects) =
      some (.javaReturn (some (.handle 0 .jsObject 1 0)), held, emptyObjects) := rfl
  have gets : Exec (stored holdsAll.roots) (NativeOp.getGlobalObject.program 0)
      (World.fresh 1 fun _ => [], emptyObjects) _ (.returned (.javaReturn (some (.handle 0 .jsObject 1 0))))
      (heldWorld, emptyObjects) := .prim keeps (.prim makes (.enter frees (.ret _ _)))
  exact ⟨_, _, _, _, _, ⟨[], [], [], rfl⟩, .refl _, rfl, gets, fun _ _ => trivial, rfl, rfl⟩

theorem plain_ownKey {st : Objects} (c : UInt16) (plain : decodedKey (ModifiedUtf8.encode [c]) =
    some (.name (latinText (ModifiedUtf8.encode [c]))))
    (own : latinText (ModifiedUtf8.encode [c]) = .ofUnits [c])
    (name : exactKey [c] = .name (.ofUnits [c])) : OwnKey holdsAll st [c] := by
  refine ⟨Or.inl plain, ?_, ?_⟩
  · rw [plain, own, name]
  · rintro key (⟨-, -, rfl⟩ | decoded)
    · rw [own, name]
    · rw [plain] at decoded
      rw [← Option.some.inj decoded, own, name]

theorem emptyContext_writes : ∃ a u, ComesBack holdsAll
    (Java.writeGlobal [⟨[0x78], some (.integer 1)⟩]) emptyContext.engine a u := by
  let k : PropertyKey := .name (.ofUnits (latin "x"))
  let w : World := heldWorld
  let st' : Objects := emptyObjects.update 1 (emptyObject.put k (.int 1))
  have sets : StoredReply holdsAll (.setProperty 1 (some [0x78]) (some (.integer 1))) (w, emptyObjects) .unit
      (w, st') := by
    have stores : Writes arrayLength emptyObjects.store 1 k (.int 1) (.stored (emptyObject.put k (.int 1))) :=
      ⟨0, rfl⟩
    have silent : SilentReply (.engine (.setPropertyStr (.object 1) (ascii "x") (.int 1))) w (.int 1) w :=
      ⟨_, _, [], rfl, rfl, rfl, rfl⟩
    have reply : (stored holdsAll.roots).reply (.engine (.setPropertyStr (.object 1) (ascii "x") (.int 1)))
        (w, emptyObjects) (.int 1) (w, st') :=
      Or.inl ⟨⟨_, stores, nofun⟩, silent, Or.inl ⟨_, stores, rfl, .refl _, fun n there => Or.inl there⟩,
        fun _ _ => rfl⟩
    have writes : Exec (stored holdsAll.roots)
        ((NativeOp.setProperty 1 (some [0x78]) (some (.integer 1))).program 0) (w, emptyObjects) _
        (.returned .unit) (w, st') := .prim rfl (.prim rfl (.enter reply (.ret _ _)))
    exact ⟨_, _, _, _, _, ⟨[], [], [], rfl⟩, .refl _, rfl, writes, fun _ _ => trivial, rfl, rfl⟩
  have frees : StoredReply holdsAll (.freeValue 1) ((javaExec (.freeValueCalled 0) w).2, st') .unit
      ({ (javaExec (.freeValueCalled 0) w).2 with values := Function.update w.values 1 false }, st') := by
    have erases : Exec (stored holdsAll.roots) ((NativeOp.freeValue 1).program 0)
        ((javaExec (.freeValueCalled 0) w).2, st') _ (.returned .unit) _ := .prim rfl (.ret _ _)
    exact ⟨_, _, _, _, _, ⟨[], [], [], rfl⟩, .refl _, rfl, erases, fun _ _ => trivial, rfl, rfl⟩
  have run : Exec (storedJava holdsAll) (Java.writeGlobal [⟨[0x78], some (.integer 1)⟩])
      emptyContext.engine _ (.returned .unit) _ :=
    .enter emptyContext_gets (.enter sets (.prim rfl (.enter frees (.ret _ _))))
  exact ⟨_, _, _, run⟩

theorem emptyContext_takes (k : PropertyKey) : Takes 1 emptyContext.engine k := fun _ => ⟨_, 0, rfl⟩

/-- Setting an attribute in the empty context. -/
theorem attribute_agrees : ∃ s, Agreed holdsAll s fun n => False ∨ checkName (some [0x78]) = .ok n := by
  obtain ⟨a, u, back⟩ := emptyContext_writes
  let set : ContextCall := .setAttribute (some [0x78]) (some (.integer 1))
  have start : Updated holdsAll (fun c s used => c.Fits holdsAll s used) emptyContext fun _ => False :=
    .start emptyContext_global rfl
  have fits : set.Fits holdsAll emptyContext fun _ => False := by
    intro n checked
    cases checked
    exact ⟨plain_ownKey 0x78 (by decide) (by decide) (by decide), ⟨_, rfl, nofun⟩, emptyContext_takes _⟩
  have performs : set.Performs holdsAll emptyContext a
      ⟨emptyContext.context.update [0x78] (some (some (.integer 1))), u⟩ := ⟨rfl, back⟩
  exact ⟨_, bindings_agree (.call start fits performs)⟩

/-- put stores the value on the Java side only. -/
theorem put_disagrees : ¬ ∀ (S : Setting) (s : ContextState) (used : JavaString → Prop),
    Updated S (fun c s _ => c.supports s.context) s used → Agreed S s used := by
  intro agree
  let put : ContextCall := .put (some [0x78]) (some (.integer 1))
  have start : Updated holdsAll (fun c s _ => c.supports s.context) emptyContext fun _ => False :=
    .start emptyContext_global rfl
  have supports : put.supports emptyContext.context := rfl
  have performs : put.Performs holdsAll emptyContext .unit
      { emptyContext with context := emptyContext.context.update [0x78] (some (some (.integer 1))) } :=
    ⟨rfl, rfl⟩
  obtain ⟨o, global, agrees⟩ := agree _ _ _ (.call start supports performs)
  cases global.here
  obtain ⟨c, b, own, -⟩ := agrees [0x78] (Or.inr rfl)
  cases own

end Agreement
end QuickJSBridge
