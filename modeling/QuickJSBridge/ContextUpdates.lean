import QuickJSBridge.AttributeWrites
import QuickJSBridge.BindingAgreement

/- Updates of the engine scope as a whole. The Java side is changed first, then the global object
   entry by entry. -/
namespace QuickJSBridge
open HostProgram ReentrantMachine ScriptObjects

section Contents
variable {p : Addr} {s : World × Objects} {o o' : ObjectData} {attributes : List Attribute} {k : PropertyKey}

/-- A value, wherever its text or its digits are. -/
def JSValue.content : JSValue → JSValue
  | .string _ s => .string 0 s
  | .bigInt _ n => .bigInt 0 n
  | v => v

def propertyContent : Property Addr JSValue → Property Addr JSValue
  | .data v writable => .data v.content writable
  | .accessor getter setter => .accessor getter setter

def Unchanged (o o' : ObjectData) : Prop :=
  ∀ k, (o'.own k).map propertyContent = (o.own k).map propertyContent

inductive Puts : List Attribute → ObjectData → ObjectData → Prop where
  | done (o : ObjectData) : Puts [] o o
  | put {x : Attribute} {rest : List Attribute} {o o' : ObjectData} {c : JSValue}
      (converted : Converted x.value c) (sound : c ≠ .exception) (later : Puts rest (o.put x.key c) o') :
      Puts (x :: rest) o o'

def Idle (p : Addr) (s : World × Objects) (o : ObjectData) (x : Attribute) : Prop :=
  Declines p s x.key ∨ Wrapper.isCallFunction x.value = false ∧
    ∃ v c, o.own x.key = some (.data v true) ∧ Converted x.value c ∧ c.content = v.content

theorem converted_content {value : Option JavaObject} {c d : JSValue} (one : Converted value c)
    (two : Converted value d) (other : Wrapper.isCallFunction value = false) : c.content = d.content := by
  unfold Converted at one two
  cases value with
  | none => rw [one, two]
  | some value =>
    cases value with
    | string text =>
      dsimp only at one two
      split at one
      next string made =>
        rw [made] at two
        obtain ⟨p, rfl⟩ := one
        obtain ⟨q, rfl⟩ := two
        rfl
      next failed =>
        rw [failed] at two
        rw [one, two]
    | long n =>
      dsimp only at one two
      split at one
      next large =>
        rw [if_pos large] at two
        obtain ⟨p, rfl⟩ := one
        obtain ⟨q, rfl⟩ := two
        rfl
      next small =>
        rw [if_neg small] at two
        rw [one, two]
    | callFunction f => cases other
    | _ => exact congrArg JSValue.content (one.trans two.symm)

theorem content_object {v : JSValue} {q : Addr} (same : v.content = .object q) : v = .object q := by
  cases v <;> first | exact same | cases same

theorem takes_own {v : JSValue} (here : s.2.store p = some o) (plain : o.length = none)
    (own : o.own k = some (.data v true)) : Takes p s k := by
  intro c
  refine ⟨o.put k c, 0, ?_⟩
  have assigned : o.assign arrayLength k c = some (.stored (o.put k c)) := by
    unfold Object.assign
    simp only [plain, Option.isSome_none, Bool.false_and, Bool.false_eq_true, if_false, own]
  simp only [write, here, Option.bind_some, assigned]

theorem takes_not_declines (takes : Takes p s k) (declines : Declines p s k) : False := by
  obtain ⟨o, stored⟩ := takes .undefined
  cases writes_unique stored (declines .undefined)

theorem takes_not_runs (takes : Takes p s k) (runs : Runs p s k) : False := by
  obtain ⟨o, stored⟩ := takes .undefined
  cases writes_unique stored (runs .undefined)

theorem idle_not_runs {x : Attribute} (here : s.2.store p = some o) (plain : o.length = none)
    (idle : Idle p s o x) : ¬ Runs p s x.key := by
  intro runs
  rcases idle with declines | ⟨-, v, c, own, -⟩
  · cases writes_unique (declines .undefined) (runs .undefined)
  · exact takes_not_runs (takes_own here plain own) runs

theorem wrote_puts (wrote : Wrote p s attributes o o') (accepts : ∀ x ∈ attributes, Accepts p s x) :
    Puts attributes o o' := by
  induction wrote with
  | done o => exact .done o
  | @stored x rest o o' c takes converted new later ih =>
    obtain ⟨⟨d, also, sound⟩, -⟩ := accepts x List.mem_cons_self
    exact .put converted (ListCall.converted_same also sound converted)
      (ih fun y member => accepts y (List.mem_cons_of_mem _ member))
  | @declined x rest o o' declines later ih =>
    exact (takes_not_declines (accepts x List.mem_cons_self).2 declines).elim

theorem wrote_idle {o₁ : ObjectData} (wrote : Wrote p s attributes o₁ o')
    (idle : ∀ x ∈ attributes, Idle p s o x) (start : Unchanged o o₁) : Unchanged o o' := by
  induction wrote with
  | done o => exact start
  | @stored x rest o₁ o' c takes converted new later ih =>
    apply ih fun y member => idle y (List.mem_cons_of_mem _ member)
    rcases idle x List.mem_cons_self with declines | ⟨other, v, d, own, converted', same⟩
    · exact (takes_not_declines takes declines).elim
    · intro k'
      by_cases here : k' = x.key
      · have now : (o₁.put x.key c).own k' = some (.data c true) := by
          rw [here]
          exact Function.update_self x.key _ o₁.own
        rw [now, here, own, Option.map_some, Option.map_some]
        have content := (converted_content converted converted' other).trans same
        change some (Property.data c.content true) = some (Property.data v.content true)
        rw [content]
      · have now : (o₁.put x.key c).own k' = o₁.own k' := Function.update_of_ne here _ o₁.own
        rw [now]
        exact start k'
  | declined declines later ih => exact ih (fun y member => idle y (List.mem_cons_of_mem _ member)) start

theorem wrote_other (wrote : Wrote p s attributes o o') (others : ∀ x ∈ attributes, x.key ≠ k) :
    o'.own k = o.own k := by
  induction wrote with
  | done o => rfl
  | @stored x rest o o' c takes converted new later ih =>
    have other : k ≠ x.key := (others x List.mem_cons_self).symm
    exact (ih fun y member => others y (List.mem_cons_of_mem _ member)).trans
      (Function.update_of_ne other _ o.own)
  | declined declines later ih => exact ih fun y member => others y (List.mem_cons_of_mem _ member)

theorem puts_other (puts : Puts attributes o o') (others : ∀ x ∈ attributes, x.key ≠ k) :
    o'.own k = o.own k := by
  induction puts with
  | done o => rfl
  | @put x rest o o' c converted sound later ih =>
    have other : k ≠ x.key := (others x List.mem_cons_self).symm
    exact (ih fun y member => others y (List.mem_cons_of_mem _ member)).trans
      (Function.update_of_ne other _ o.own)

theorem wrote_own (wrote : Wrote p s attributes o o') (apart : attributes.Pairwise fun x y => x.key ≠ y.key) :
    ∀ x ∈ attributes, (Takes p s x.key ∧ ∃ c, Converted x.value c ∧ o'.own x.key = some (.data c true) ∧
        (Wrapper.isCallFunction x.value = true → ∀ b, o.own x.key ≠ some (.data c b))) ∨
      (Declines p s x.key ∧ o'.own x.key = o.own x.key) := by
  induction wrote with
  | done o => nofun
  | @stored x rest o o' c takes converted new later ih =>
    obtain ⟨distinct, apart⟩ := List.pairwise_cons.1 apart
    intro y member
    rcases List.mem_cons.1 member with rfl | member
    · have own : o'.own y.key = some (.data c true) := by
        rw [wrote_other later fun z there => (distinct z there).symm]
        exact Function.update_self y.key _ o.own
      exact Or.inl ⟨takes, c, converted, own, new⟩
    · have became := ih apart y member
      have same : (o.put x.key c).own y.key = o.own y.key :=
        Function.update_of_ne (distinct y member).symm _ o.own
      rw [same] at became
      exact became
  | @declined x rest o o' declines later ih =>
    obtain ⟨distinct, apart⟩ := List.pairwise_cons.1 apart
    intro y member
    rcases List.mem_cons.1 member with rfl | member
    · exact Or.inr ⟨declines, wrote_other later fun z there => (distinct z there).symm⟩
    · exact ih apart y member

theorem puts_own (puts : Puts attributes o o') (apart : attributes.Pairwise fun x y => x.key ≠ y.key) :
    ∀ x ∈ attributes, ∃ c, Converted x.value c ∧ c ≠ .exception ∧ o'.own x.key = some (.data c true) := by
  induction puts with
  | done o => nofun
  | @put x rest o o' c converted sound later ih =>
    obtain ⟨distinct, apart⟩ := List.pairwise_cons.1 apart
    intro y member
    rcases List.mem_cons.1 member with rfl | member
    · refine ⟨c, converted, sound, ?_⟩
      rw [puts_other later fun z there => (distinct z there).symm]
      exact Function.update_self y.key _ o.own
    · exact ih apart y member

theorem accepts_of_puts (here : s.2.store p = some o) (plain : o.length = none)
    (wrote : Wrote p s attributes o o') (puts : Puts attributes o o')
    (apart : attributes.Pairwise fun x y => x.key ≠ y.key) : ∀ x ∈ attributes, Accepts p s x := by
  intro x member
  obtain ⟨c, converted, sound, own⟩ := puts_own puts apart x member
  rcases wrote_own wrote apart x member with ⟨takes, -⟩ | ⟨-, same⟩
  · exact ⟨⟨c, converted, sound⟩, takes⟩
  · exact ⟨⟨c, converted, sound⟩, takes_own here plain (same.symm.trans own)⟩

theorem idle_of_unchanged (wrote : Wrote p s attributes o o') (unchanged : Unchanged o o')
    (apart : attributes.Pairwise fun x y => x.key ≠ y.key) : ∀ x ∈ attributes, Idle p s o x := by
  intro x member
  rcases wrote_own wrote apart x member with ⟨-, c, converted, own, new⟩ | ⟨declines, -⟩
  · have before := unchanged x.key
    rw [own, Option.map_some] at before
    obtain ⟨x', own', same⟩ := Option.map_eq_some_iff.1 before.symm
    cases x' with
    | accessor getter setter => cases same
    | data v writable =>
      obtain ⟨content, rfl⟩ := Property.data.inj same
      refine Or.inr ⟨?_, v, c, own', converted, content.symm⟩
      cases function : Wrapper.isCallFunction x.value with
      | false => rfl
      | true =>
        obtain ⟨q, rfl⟩ := converted_function function converted
        rw [content_object content] at own'
        exact absurd own' (new function true)
  · exact Or.inl declines

end Contents

section Updates
variable {S : Setting} {s s' : ContextState} {c : ContextCall} {a : Answer} {o : ObjectData}

/-- The calls that set attributes on both sides. -/
def ContextCall.isUpdate : ContextCall → Bool
  | .setAttribute _ _ | .setBindings _ _ => true
  | _ => false

def ContextCall.plan (c : ScriptContext) : ContextCall → Option (ScriptContext × List Attribute)
  | .setAttribute name value =>
    match checkName name with
    | .error _ => none
    | .ok name => some (c.update name (some value), [⟨name, value⟩])
  | .setBindings (some b) attributes => some ({ c with engineScope := b }, attributes)
  | _ => none

def ContextCall.Succeeded (c : ContextCall) (s : ContextState) (a : Answer) (s' : ContextState) : Prop :=
  a = .unit ∧ ∃ context attributes, c.plan s.context = some (context, attributes) ∧ s'.context = context ∧
    ∃ o o', s.engine.2.store s.global = some o ∧ s'.engine.2.store s.global = some o' ∧
      Puts attributes o o' ∧ Filled attributes s.engine.1 s'.engine.1 o o'

def Failed (s : ContextState) (a : Answer) (s' : ContextState) : Prop :=
  (∃ e, a = .javaThrow e) ∧ s'.context = s.context ∧
    ∃ o o', s.engine.2.store s.global = some o ∧ s'.engine.2.store s.global = some o' ∧ Unchanged o o'

def ContextCall.Atomic (S : Setting) (s : ContextState) (c : ContextCall) : Prop :=
  ∀ a s', c.Performs S s a s' → c.Succeeded s a s' ∨ Failed s a s'

/-- The names of the entries come to keys of their own. -/
def ContextCall.IsClear (S : Setting) (s : ContextState) (c : ContextCall) : Prop :=
  ∀ context attributes, c.plan s.context = some (context, attributes) → Clear S s.engine.2 attributes

/-- The global object accepts all entries, or one of them is of a type that is not supported, and what
    is done before it is found changes nothing. -/
def ContextCall.Whole (S : Setting) (s : ContextState) (c : ContextCall) : Prop :=
  ∀ context attributes, c.plan s.context = some (context, attributes) →
    (Clear S s.engine.2 attributes ∧ ∀ x ∈ attributes, Accepts s.global s.engine x) ∨
    (Clear S s.engine.2 (reached attributes) ∧ (∃ x ∈ attributes, supported x.value = false) ∧
      context = s.context ∧
      ∃ o, s.engine.2.store s.global = some o ∧ ∀ x ∈ reached attributes, Idle s.global s.engine o x)

theorem performs_plan (update : c.isUpdate = true) (performs : c.Performs S s a s') :
    (c.plan s.context = none ∧ (∃ e, a = .javaThrow e) ∧ s' = s) ∨
    ∃ context attributes, c.plan s.context = some (context, attributes) ∧ s'.context = context ∧
      (attributes.Pairwise fun x y => x.key ≠ y.key) ∧
      ComesBack S (Java.writeGlobal attributes) s.engine a s'.engine ∧
      ∀ e, ComesBack S (Java.writeGlobal attributes) s.engine a e → c.Performs S s a ⟨context, e⟩ := by
  cases c with
  | put name value => cases update
  | removeAttribute name => cases update
  | setAttribute name value =>
    simp only [ContextCall.Performs, ContextCall.plan] at performs ⊢
    cases checked : checkName name with
    | error e =>
      simp only [checked] at performs
      obtain ⟨rfl, rfl⟩ := performs
      exact Or.inl ⟨rfl, ⟨e, rfl⟩, rfl⟩
    | ok n =>
      simp only [checked] at performs
      obtain ⟨context, back⟩ := performs
      exact Or.inr ⟨_, _, rfl, context, List.pairwise_singleton _ _, back, fun e again => ⟨rfl, again⟩⟩
  | setBindings bindings attributes =>
    cases bindings with
    | none =>
      obtain ⟨rfl, rfl⟩ := performs
      exact Or.inl ⟨rfl, ⟨_, rfl⟩, rfl⟩
    | some b =>
      obtain ⟨enumerates, context, back⟩ := performs
      exact Or.inr ⟨_, _, rfl, context, keys_apart enumerates.1, back, fun e again => ⟨enumerates, rfl, again⟩⟩

theorem reached_all {attributes : List Attribute} (can : ∀ x ∈ attributes, supported x.value = true) :
    reached attributes = attributes ∧ answered attributes = .unit := by
  induction attributes with
  | nil => exact ⟨rfl, rfl⟩
  | cons x rest ih =>
    obtain ⟨all, fine⟩ := ih fun y member => can y (List.mem_cons_of_mem _ member)
    have here := can x List.mem_cons_self
    constructor
    · simp only [reached, here, if_true, all]
    · simp only [answered, thrownFor_supported here, fine]

theorem answered_throws {attributes : List Attribute}
    (cannot : ∃ x ∈ attributes, supported x.value = false) :
    ∃ e, answered attributes = .javaThrow e := by
  induction attributes with
  | nil =>
    obtain ⟨x, member, -⟩ := cannot
    cases member
  | cons x rest ih =>
    unfold answered
    cases thrown : thrownFor x.value with
    | some e => exact ⟨e, rfl⟩
    | none =>
      apply ih
      obtain ⟨y, member, other⟩ := cannot
      rcases List.mem_cons.1 member with rfl | member
      · obtain ⟨e, some⟩ := thrownFor_other other
        cases thrown.symm.trans some
      · exact ⟨y, member, other⟩

theorem reached_sublist (attributes : List Attribute) : (reached attributes).Sublist attributes := by
  induction attributes with
  | nil => exact .refl _
  | cons x rest ih =>
    unfold reached
    split
    · exact ih.cons_cons x
    · exact (List.nil_sublist rest).cons_cons x

theorem Clear.sublist {st : Objects} {fewer attributes : List Attribute} (clear : Clear S st attributes)
    (less : fewer.Sublist attributes) : Clear S st fewer :=
  ⟨fun x member => clear.own x (less.subset member), clear.beside.sublist less⟩

/-- An update is atomic under this condition, and under no other as long as the names come to keys of
    their own. -/
theorem context_update (update : c.isUpdate = true) (global : HasGlobal S s o)
    (ends : ChainEnds s.engine.2.store o.proto) :
    (c.Whole S s → c.Atomic S s) ∧
    (c.IsClear S s → (∃ a s', c.Performs S s a s') → c.Atomic S s → c.Whole S s) := by
  have sorted : ∀ k, Takes s.global s.engine k ∨ Declines s.global s.engine k ∨
      Runs s.global s.engine k := by
    intro k
    obtain ⟨r, written⟩ := writes_ends global.here ends .undefined
    apply writes_alike written
    intro x here array
    cases here.symm.trans global.here
    rw [global.plain] at array
    cases array
  constructor
  · intro whole a s' performs
    rcases performs_plan update performs with
      ⟨-, threw, rfl⟩ | ⟨context, attributes, plan, now, apart, back, -⟩
    · exact Or.inr ⟨threw, rfl, o, o, global.here, global.here, fun k => rfl⟩
    · have clear : Clear S s.engine.2 (reached attributes) := by
        rcases whole context attributes plan with ⟨clear, -⟩ | ⟨clear, -⟩
        · exact clear.sublist (reached_sublist attributes)
        · exact clear
      rcases writeGlobal_writes global.held global.here global.plain global.sparse clear sorted back with
        ⟨⟨x, member, runs⟩, -⟩ | ⟨-, rfl, o', there, wrote⟩
      · exfalso
        rcases whole context attributes plan with ⟨-, accepts⟩ | ⟨-, -, -, o₁, here, idle⟩
        · exact takes_not_runs (accepts x ((reached_sublist attributes).subset member)).2 runs
        · cases here.symm.trans global.here
          exact idle_not_runs global.here global.plain (idle x member) runs
      · rcases whole context attributes plan with ⟨clear, accepts⟩ | ⟨-, other, same, o₁, here, idle⟩
        · left
          have can : ∀ x ∈ attributes, supported x.value = true := by
            intro x member
            obtain ⟨⟨c, converted, sound⟩, -⟩ := accepts x member
            exact supported_of_converted converted sound
          obtain ⟨all, fine⟩ := reached_all can
          rw [all] at wrote
          obtain ⟨o₂, also, filled⟩ :=
            writeGlobal_fills global.held global.here global.plain global.sparse clear accepts apart back
          cases there.symm.trans also
          exact ⟨fine, context, attributes, plan, now, o, o', global.here, there,
            wrote_puts wrote accepts, filled⟩
        · right
          cases here.symm.trans global.here
          exact ⟨answered_throws other, now.trans same, o, o', global.here, there,
            wrote_idle wrote idle fun k => rfl⟩
  · rintro isClear ⟨a, s', performs⟩ atomic context attributes plan
    rcases performs_plan update performs with ⟨none, -⟩ | ⟨_, _, also, now, apart, back, again⟩
    · cases none.symm.trans plan
    · cases also.symm.trans plan
      have clear := isClear context attributes plan
      have fewer := clear.sublist (reached_sublist attributes)
      rcases writeGlobal_writes global.held global.here global.plain global.sparse fewer sorted back with
        ⟨-, vanishes⟩ | ⟨-, rfl, o', there, wrote⟩
      · rcases atomic _ _ (again _ vanishes) with
          ⟨-, _, _, -, -, _, _, -, gone, -⟩ | ⟨-, -, _, _, -, gone, -⟩
        · cases gone
        · cases gone
      · rcases atomic _ _ performs with ⟨fine, _, _, also', -, o₁, o₂, here, last, puts, -⟩ |
          ⟨⟨e, threw⟩, same, o₁, o₂, here, last, unchanged⟩
        · left
          cases also'.symm.trans plan
          cases here.symm.trans global.here
          cases last.symm.trans there
          have can : ∀ x ∈ attributes, supported x.value = true := by
            intro x member
            cases can : supported x.value with
            | true => rfl
            | false =>
              obtain ⟨e, threw⟩ := answered_throws ⟨x, member, can⟩
              cases fine.symm.trans threw
          rw [(reached_all can).1] at wrote
          exact ⟨clear, accepts_of_puts global.here global.plain wrote puts apart⟩
        · right
          cases here.symm.trans global.here
          refine ⟨fewer, ?_, now.symm.trans same, o, global.here, ?_⟩
          · by_contra none
            have can : ∀ x ∈ attributes, supported x.value = true := by
              intro x member
              cases can : supported x.value with
              | true => rfl
              | false => exact absurd ⟨x, member, can⟩ none
            cases (reached_all can).2.symm.trans threw
          · cases last.symm.trans there
            exact idle_of_unchanged wrote unchanged (apart.sublist (reached_sublist attributes))

/-- Setting an attribute to 1 in the empty context. -/
theorem number_set :
    (ContextCall.setAttribute (some [0x78]) (some (.integer 1))).Atomic holdsAll emptyContext ∧
    (ContextCall.setAttribute (some [0x78]) (some (.integer 1))).Whole holdsAll emptyContext := by
  obtain ⟨a, u, back⟩ := emptyContext_writes
  let set : ContextCall := .setAttribute (some [0x78]) (some (.integer 1))
  have update : set.isUpdate = true := rfl
  obtain ⟨enough, needed⟩ := context_update update emptyContext_global .last
  have clear : set.IsClear holdsAll emptyContext := by
    intro context attributes plan
    cases plan
    exact @clear_single _ emptyContext.engine ⟨[0x78], some (.integer 1)⟩
      (plain_ownKey 0x78 (by decide) (by decide) (by decide))
  have whole : set.Whole holdsAll emptyContext := by
    intro context attributes plan
    refine Or.inl ⟨clear context attributes plan, ?_⟩
    cases plan
    intro x member
    cases List.mem_singleton.1 member
    exact ⟨⟨_, rfl, nofun⟩, emptyContext_takes _⟩
  have performs : set.Performs holdsAll emptyContext a
      ⟨emptyContext.context.update [0x78] (some (some (.integer 1))), u⟩ := ⟨rfl, back⟩
  exact ⟨enough whole, needed clear ⟨a, _, performs⟩ (enough whole)⟩

theorem emptyContext_refuses : ∃ a u, ComesBack holdsAll
    (Java.writeGlobal [⟨[0x64], some (.other "java.util.Date")⟩]) emptyContext.engine a u := by
  let k : PropertyKey := .name (.ofUnits (latin "d"))
  let e : JavaException := unsupportedType "java.util.Date"
  let w : World := { heldWorld with javaException := some e }
  let st' : Objects := emptyObjects.update 1 (emptyObject.put k .exception)
  have stores : Writes arrayLength emptyObjects.store 1 k .exception (.stored (emptyObject.put k .exception)) :=
    ⟨0, rfl⟩
  have silent : SilentReply (.engine (.setPropertyStr (.object 1) (ascii "d") .exception)) w (.int 1) w :=
    ⟨_, _, [], rfl, rfl, rfl, rfl⟩
  have reply : (stored holdsAll.roots).reply (.engine (.setPropertyStr (.object 1) (ascii "d") .exception))
      (w, emptyObjects) (.int 1) (w, st') :=
    Or.inl ⟨⟨_, stores, nofun⟩, silent, Or.inl ⟨_, stores, rfl, .refl _, fun n there => Or.inl there⟩,
      fun _ _ => rfl⟩
  have writes : Exec (stored holdsAll.roots)
      ((NativeOp.setProperty 1 (some [0x64]) (some (.other "java.util.Date"))).program 0)
      (heldWorld, emptyObjects) _ (.returned .unit) (w, st') := .prim rfl (.prim rfl (.enter reply (.ret _ _)))
  have sets : StoredReply holdsAll (.setProperty 1 (some [0x64]) (some (.other "java.util.Date")))
      (heldWorld, emptyObjects) (.javaThrow e) (heldWorld, st') :=
    ⟨_, _, _, _, _, ⟨[], [], [], rfl⟩, .refl _, rfl, writes, fun _ _ => trivial, rfl, rfl⟩
  have run : Exec (storedJava holdsAll) (Java.writeGlobal [⟨[0x64], some (.other "java.util.Date")⟩])
      emptyContext.engine _ (.returned (.javaThrow e)) (heldWorld, st') :=
    .enter emptyContext_gets (.enter sets (.ret _ _))
  exact ⟨_, _, _, run⟩

/-- The engine scope has the date although the call has thrown. -/
theorem date_bound : ¬ ∀ (S : Setting) (s : ContextState) (o : ObjectData) (c : ContextCall),
    c.isUpdate = true → HasGlobal S s o → ChainEnds s.engine.2.store o.proto → c.Atomic S s := by
  intro atomic
  obtain ⟨a, u, back⟩ := emptyContext_refuses
  let set : ContextCall := .setAttribute (some [0x64]) (some (.other "java.util.Date"))
  have performs : set.Performs holdsAll emptyContext a
      ⟨emptyContext.context.update [0x64] (some (some (.other "java.util.Date"))), u⟩ := ⟨rfl, back⟩
  rcases atomic _ _ _ set rfl emptyContext_global .last _ _ performs with
    ⟨-, context, attributes, plan, -, o, o', -, -, puts, -⟩ | ⟨-, same, -⟩
  · cases plan
    cases puts with
    | put converted sound later => exact sound converted
  · have bound := congrFun (congrArg ScriptContext.bindings same) [0x64]
    cases bound

end Updates
end QuickJSBridge
