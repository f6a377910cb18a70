import QuickJSBridge.TrialDeletion

/- Freeing objects. Whether the collector removes cycles or a count has dropped to zero, every
   reference a freed object held is released once, and an allocation is freed when nothing
   counts on it any more. -/
namespace QuickJSBridge.Collector
open CountedGraphs

section Agreement
variable {vs : List JSValue} {ps : List (Option Addr)}

def targets (ps : List Pointer) : List Addr := ps.filterMap Pointer.target?

@[simp] theorem target_value (v : JSValue) : (Pointer.value v).target?.toList = markValue v := by
  simp only [Pointer.value, Pointer.target?, Leaf.target?, markValue]

@[simp] theorem target_shape (p : Addr) : (Pointer.leaf (.shape p)).target? = some p := by
  simp only [Pointer.target?, Leaf.target?]

@[simp] theorem target_varRef (p : Addr) : (Pointer.leaf (.varRef p)).target? = some p := by
  simp only [Pointer.target?, Leaf.target?]

@[simp] theorem target_context (p : Addr) : (Pointer.context p).target? = some p := by
  simp only [Pointer.target?]

@[simp] theorem target_asyncFunction (p : Addr) : (Pointer.asyncFunction p).target? = some p := by
  simp only [Pointer.target?]

@[simp] theorem markValue_object (p : Addr) : markValue (.object p) = [p] := by
  simp only [markValue, gcAddr?, Option.toList_some]

@[simp] theorem markValue_functionBytecode (p : Addr) : markValue (.functionBytecode p) = [p] := by
  simp only [markValue, gcAddr?, Option.toList_some]

@[simp] theorem targets_nil : targets [] = [] := by
  simp only [targets, List.filterMap_nil]

@[simp] theorem targets_cons (p : Pointer) (ps : List Pointer) :
    targets (p :: ps) = p.target?.toList ++ targets ps := by
  unfold targets
  cases found : p.target? <;> simp [found]

@[simp] theorem targets_append (ps qs : List Pointer) :
    targets (ps ++ qs) = targets ps ++ targets qs := by simp [targets]

@[simp] theorem targets_flatMap {β : Type} (bs : List β) (f : β → List Pointer) :
    targets (bs.flatMap f) = bs.flatMap fun b => targets (f b) := by
  induction bs with
  | nil => rfl
  | cons b rest ih => simp [ih]

@[simp] theorem targets_values : targets (vs.map .value) = markValues vs := by
  induction vs with
  | nil => rfl
  | cons v rest ih => simp [ih, markValues]

@[simp] theorem markValues_append (vs ws : List JSValue) :
    markValues (vs ++ ws) = markValues vs ++ markValues ws := List.flatMap_append

@[simp] theorem markValues_cons (v : JSValue) (vs : List JSValue) :
    markValues (v :: vs) = markValue v ++ markValues vs := rfl

@[simp] theorem markValues_nil : markValues [] = [] := rfl

@[simp] theorem markValues_flatMap {β : Type} (bs : List β) (f : β → List JSValue) :
    markValues (bs.flatMap f) = bs.flatMap fun b => markValues (f b) := by
  induction bs with
  | nil => rfl
  | cons b rest ih => simp [ih]

@[simp] theorem markValues_objects : markValues (objects ps) = ps.flatMap Option.toList := by
  induction ps with
  | nil => rfl
  | cons p rest ih =>
    have step : objects (p :: rest) = p.toList.map .object ++ objects rest := by simp [objects]
    rw [step, markValues_append, ih]
    cases p <;> simp

@[simp] theorem targets_contexts (p : Option Addr) :
    targets (p.toList.map .context) = p.toList := by
  cases p <;> simp

@[simp] theorem targets_varRefs : targets (varRefs ps) = ps.flatMap Option.toList := by
  induction ps with
  | nil => rfl
  | cons p rest ih =>
    have step : varRefs (p :: rest) = (p.toList.map fun v => .leaf (.varRef v)) ++ varRefs rest := by
      simp [varRefs]
    rw [step, targets_append, ih]
    cases p <;> simp

theorem mark_frame (s : JSAsyncFunctionState) : (markValues (asyncFuncFree s)).Perm (asyncFuncMark s) := by
  simp only [asyncFuncFree, asyncFuncMark, markValues_append, markValues_cons, markValues_nil,
    List.append_nil]
  exact List.perm_append_comm

theorem mark_frame? (s : Option JSAsyncFunctionState) :
    (markValues (s.elim [] asyncFuncFree)).Perm (s.elim [] asyncFuncMark) := by
  cases s with
  | none => exact .refl _
  | some s => exact mark_frame s

@[simp] theorem request_marks (req : JSAsyncGeneratorRequest) :
    markValues (freeRequest req) = markRequest req := by simp [freeRequest, markRequest]

@[simp] theorem reaction_marks (rd : JSPromiseReactionData) :
    markValues (promiseReactionDataFree rd) = markReaction rd := by
  simp [promiseReactionDataFree, markReaction]

theorem finalizer_marks (data : ClassData) : (targets data.finalizer).Perm data.gcMark := by
  cases data with
  | generator funcState =>
    rw [ClassData.finalizer, targets_values]
    exact mark_frame? funcState
  | asyncGenerator queue funcState =>
    rw [ClassData.finalizer, targets_values, markValues_append, markValues_flatMap]
    exact List.Perm.append (.of_eq (by simp)) (mark_frame? funcState)
  | bytecodeFunction homeObject code =>
    refine .of_eq ?_
    cases code <;> simp [ClassData.finalizer, ClassData.gcMark]
  | _ =>
    refine .of_eq ?_
    simp [ClassData.finalizer, ClassData.gcMark]

theorem property_marks (pr : JSProperty) : targets pr.free = pr.mark := by
  cases pr <;> simp [JSProperty.free, JSProperty.mark]

theorem module_marks (m : JSModuleDef) : targets (m.free.map .leaf) = m.mark := by
  have exported : ∀ ps : List (Option Addr),
      targets ((ps.flatMap fun p => p.toList.map Leaf.varRef).map .leaf) = ps.flatMap Option.toList := by
    intro ps
    induction ps with
    | nil => rfl
    | cons p rest ih => cases p <;> simp [ih]
  have values : ∀ vs : List JSValue, targets ((vs.map Leaf.value).map .leaf) = markValues vs := by
    intro vs
    rw [List.map_map]
    exact targets_values
  have split : m.free.map Pointer.leaf = (m.exports.flatMap fun p => p.toList.map Leaf.varRef).map .leaf ++
      ([m.moduleNs, m.funcObj, m.evalException, m.metaObj].map Leaf.value).map .leaf := by
    simp [JSModuleDef.free]
  rw [split, targets_append, exported, values]
  simp [JSModuleDef.mark]

theorem context_marks (modules : List JSModuleDef) (values : List JSValue) (arrayShape : Option Addr) :
    targets ((contextLeaves modules values arrayShape).map .leaf) =
      modules.flatMap JSModuleDef.mark ++ markValues values ++ arrayShape.toList := by
  have loaded : targets ((modules.flatMap JSModuleDef.free).map .leaf) =
      modules.flatMap JSModuleDef.mark := by
    induction modules with
    | nil => rfl
    | cons m rest ih =>
      rw [List.flatMap_cons, List.map_append, targets_append, module_marks, ih]
      rfl
  have members : targets ((values.map Leaf.value).map .leaf) = markValues values := by
    rw [List.map_map]
    exact targets_values
  rw [contextLeaves, List.map_append, List.map_append, targets_append, targets_append, loaded, members]
  cases arrayShape <;> simp

theorem releases_children (c : Content) : (targets c.releases).Perm c.children := by
  cases c with
  | jsObject shape props data =>
    simp only [Content.releases, Content.children, targets_append, targets_cons, targets_flatMap,
      property_marks, target_shape, Option.toList_some, List.singleton_append]
    exact List.perm_middle.trans (((finalizer_marks data).append_left _).cons _)
  | functionBytecode cpool realm => simp [Content.releases, Content.children]
  | shape proto => simp [Content.releases, Content.children]
  | varRef value => simp [Content.releases, Content.children]
  | asyncFunction funcState resolvingFuncs =>
    simp only [Content.releases, Content.children, asyncFunctionValues, targets_values,
      markValues_append, markValues_cons, markValues_nil, List.append_nil, ← List.append_assoc]
    exact ((mark_frame? funcState).append_right _).append_right _
  | jsContext modules values arrayShape => exact .of_eq (context_marks modules values arrayShape)
  | header type => exact .refl _

end Agreement

section Typing

def GCObjType.isValue : GCObjType → Bool
  | .jsObject | .functionBytecode => true
  | _ => false

def typeOf (contents : Addr → Option Content) (p : Addr) : Option GCObjType :=
  (contents p).map Content.gcObjType

def valued (contents : Addr → Option Content) (p : Addr) : Bool :=
  ((typeOf contents p).map GCObjType.isValue).getD false

def Pointer.Typed (contents : Addr → Option Content) : Pointer → Prop
  | .leaf (.value v) => ∀ p ∈ gcAddr? v, valued contents p = true
  | .leaf (.shape p) => typeOf contents p = some .shape
  | .leaf (.varRef p) => typeOf contents p = some .varRef
  | .context p => typeOf contents p = some .jsContext
  | .asyncFunction p => typeOf contents p = some .asyncFunction

structure WellTyped (contents : Addr → Option Content) : Prop where
  whole : ∀ p t, contents p ≠ some (.header t)
  typed : ∀ p c, contents p = some c → ∀ ptr ∈ c.releases, ptr.Typed contents

end Typing

section Invariant
variable (phase : GCPhase) (outside : Addr → Nat) (contents : Addr → Option Content)
  (kept : List Addr)

/-- While objects are freed, `owners` still hold their references and the references in
    `pending` have lost their holder but have not been released. The objects in `busy` are
    about to be freed; those in `kept` stay. -/
structure Freeing (busy owners pending : List Addr) (rt : Runtime) : Prop where
  ownersNodup : owners.Nodup
  counts : ∀ p, rt.contents p ≠ none →
    rt.count p = outside p + inward (refsOf contents) owners p + pending.count p
  there : ∀ p, 0 < outside p + inward (refsOf contents) owners p + pending.count p →
    rt.contents p ≠ none
  intact : ∀ p ∈ owners, rt.contents p ≠ none ∧ rt.contents p = contents p
  types : ∀ p c, rt.contents p = some c → typeOf contents p = some c.gcObjType
  distinct : (rt.gcObjList ++ rt.gcZeroRefCountList ++ rt.tmpObjList).Nodup
  listed : ∀ p, p ∈ rt.gcObjList ++ rt.gcZeroRefCountList ++ rt.tmpObjList ↔ rt.contents p ≠ none
  inPhase : rt.gcPhase = phase
  busyNodup : busy.Nodup
  busyThere : ∀ p ∈ busy, rt.contents p ≠ none
  busyCount : ∀ p ∈ busy, phase = .decref ∨ valued contents p = false → rt.count p = 0
  others : ∀ p, rt.contents p ≠ none → p ∉ busy → valued contents p = false →
    p ∈ owners ∧ 0 < rt.count p
  gcOwned : ∀ p ∈ rt.gcObjList, p ∉ busy → p ∈ owners
  tmpOwned : ∀ p ∈ rt.tmpObjList, p ∉ busy → p ∈ owners
  stays : ∀ p ∈ kept, p ∈ owners ∧ p ∈ rt.gcObjList
  marks : ∀ p ∈ rt.gcObjList, rt.markOf p = false
  removing : phase = .removeCycles → (∀ p ∈ rt.gcObjList, p ∈ kept) ∧
    ∀ p ∈ rt.gcZeroRefCountList, valued contents p = true → p ∉ owners
  counting : phase = .decref → rt.tmpObjList = [] ∧
    (∀ p ∈ rt.gcObjList, p ∉ busy → 0 < rt.count p) ∧
    ∀ p ∈ rt.gcZeroRefCountList, valued contents p = true ∧ (p ∉ busy → p ∈ owners) ∧ rt.count p = 0

structure Shrinks (owners owners' : List Addr) (rt rt' : Runtime) : Prop where
  owners : ∀ p ∈ owners', p ∈ owners
  heap : ∀ p, rt'.contents p ≠ none → rt.contents p ≠ none
  tmp : ∀ p ∈ rt'.tmpObjList, p ∈ rt.tmpObjList

variable {phase outside contents kept} {busy owners owners' owners'' pending pending' : List Addr}
  {rt rt' rt'' : Runtime} {p : Addr} {o : GCObject}

theorem Shrinks.refl : Shrinks owners owners rt rt := ⟨fun _ h => h, fun _ h => h, fun _ h => h⟩

theorem Shrinks.trans (first : Shrinks owners owners' rt rt')
    (second : Shrinks owners' owners'' rt' rt'') : Shrinks owners owners'' rt rt'' :=
  ⟨fun p h => first.owners p (second.owners p h), fun p h => first.heap p (second.heap p h),
    fun p h => first.tmp p (second.tmp p h)⟩

theorem freeing_perm (same : pending.Perm pending')
    (inv : Freeing phase outside contents kept busy owners pending rt) :
    Freeing phase outside contents kept busy owners pending' rt := by
  have equal : ∀ q, pending'.count q = pending.count q := fun q => (same.count_eq q).symm
  exact { inv with
    counts := fun q there => by rw [equal]; exact inv.counts q there
    there := fun q positive => inv.there q (by rw [← equal]; exact positive) }

theorem pending_cell (inv : Freeing phase outside contents kept busy owners (p :: pending) rt) :
    ∃ o, rt.heap p = some o ∧ 0 < o.refCount := by
  have positive : 0 < (p :: pending).count p := by simp
  have known := inv.there p (by omega)
  obtain ⟨c, here⟩ := Option.ne_none_iff_exists'.1 known
  obtain ⟨o, cell, -⟩ := heap_of_contents here
  have tallied := inv.counts p known
  rw [count_of cell] at tallied
  exact ⟨o, cell, by omega⟩

structure Dropped (p : Addr) (rt rt' : Runtime) : Prop where
  contents : rt'.contents = rt.contents
  count : ∀ q, rt'.count q = if q = p then rt.count p - 1 else rt.count q
  marks : rt'.markOf = rt.markOf
  gc : rt'.gcObjList = rt.gcObjList
  zero : rt'.gcZeroRefCountList = rt.gcZeroRefCountList
  tmp : rt'.tmpObjList = rt.tmpObjList
  phase : rt'.gcPhase = rt.gcPhase

theorem dropped_set (cell : rt.heap p = some o) :
    Dropped p rt (rt.set p (some { o with refCount := o.refCount - 1 })) where
  contents := contents_count cell _
  count q := by rw [count_set, count_of cell]
  marks := by
    funext q
    rw [markOf_set]
    split
    · next equal => rw [equal, markOf_of cell]
    · rfl
  gc := rfl
  zero := rfl
  tmp := rfl
  phase := rfl

theorem counts_dropped (inv : Freeing phase outside contents kept busy owners (p :: pending) rt)
    (dropped : Dropped p rt rt') (q : Addr) (there : rt'.contents q ≠ none) :
    rt'.count q = outside q + inward (refsOf contents) owners q + pending.count q := by
  rw [dropped.contents] at there
  have before := inv.counts q there
  rw [dropped.count]
  split
  · next equal =>
    rw [equal, List.count_cons_self] at before
    rw [equal]
    omega
  · next other => rw [before, List.count_cons_of_ne (Ne.symm other)]

theorem freeing_drop (inv : Freeing phase outside contents kept busy owners (p :: pending) rt)
    (dropped : Dropped p rt rt')
    (noticed : 1 < rt.count p ∨ (phase = .removeCycles ∧ valued contents p = true)) :
    Freeing phase outside contents kept busy owners pending rt' := by
  have tallied : 0 < rt.count p := by
    obtain ⟨o, cell, positive⟩ := pending_cell inv
    rw [count_of cell]
    exact positive
  have zero : ∀ q, rt.count q = 0 → rt'.count q = 0 := by
    intro q none
    rw [dropped.count]
    split
    · next equal => rw [← equal, none]
    · exact none
  refine {
    ownersNodup := inv.ownersNodup
    counts := counts_dropped inv dropped
    there := fun q positive => ?_
    intact := fun q there => by rw [dropped.contents]; exact inv.intact q there
    types := fun q c there => inv.types q c (by rw [← dropped.contents]; exact there)
    distinct := by rw [dropped.gc, dropped.zero, dropped.tmp]; exact inv.distinct
    listed := by rw [dropped.gc, dropped.zero, dropped.tmp, dropped.contents]; exact inv.listed
    inPhase := dropped.phase.trans inv.inPhase
    busyNodup := inv.busyNodup
    busyThere := by rw [dropped.contents]; exact inv.busyThere
    busyCount := fun q there why => zero q (inv.busyCount q there why)
    others := fun q there idle other => ?_
    gcOwned := by rw [dropped.gc]; exact inv.gcOwned
    tmpOwned := by rw [dropped.tmp]; exact inv.tmpOwned
    stays := by rw [dropped.gc]; exact inv.stays
    marks := by rw [dropped.gc, dropped.marks]; exact inv.marks
    removing := by rw [dropped.gc, dropped.zero]; exact inv.removing
    counting := fun decref => ?_ }
  · rw [dropped.contents]
    refine inv.there q ?_
    have more : pending.count q ≤ (p :: pending).count q := by
      rw [List.count_cons]
      omega
    omega
  · rw [dropped.contents] at there
    obtain ⟨owner, positive⟩ := inv.others q there idle other
    refine ⟨owner, ?_⟩
    rw [dropped.count]
    split
    · next equal =>
      subst equal
      rcases noticed with more | ⟨-, value⟩
      · omega
      · rw [value] at other
        cases other
    · exact positive
  · obtain ⟨none, positive, queued⟩ := inv.counting decref
    rw [dropped.tmp, dropped.gc, dropped.zero]
    refine ⟨none, fun q there idle => ?_, fun q there => ?_⟩
    · have before := positive q there idle
      rw [dropped.count]
      split
      · next equal =>
        rcases noticed with more | ⟨removing, -⟩
        · omega
        · rw [decref] at removing
          cases removing
      · exact before
    · obtain ⟨value, owner, uncounted⟩ := queued q there
      exact ⟨value, owner, zero q uncounted⟩

theorem freeing_last (inv : Freeing phase outside contents kept busy owners (p :: pending) rt)
    (dropped : Dropped p rt rt') (last : rt.count p = 1) (idle : p ∉ busy) :
    Freeing phase outside contents kept (p :: busy) owners pending rt' := by
  have gone : rt'.count p = 0 := by rw [dropped.count, if_pos rfl, last]
  have same : ∀ q, q ≠ p → rt'.count q = rt.count q := fun q other => by
    rw [dropped.count, if_neg other]
  have known : rt.contents p ≠ none := inv.there p (by rw [List.count_cons_self]; omega)
  refine {
    ownersNodup := inv.ownersNodup
    counts := counts_dropped inv dropped
    there := fun q positive => ?_
    intact := fun q there => by rw [dropped.contents]; exact inv.intact q there
    types := fun q c there => inv.types q c (by rw [← dropped.contents]; exact there)
    distinct := by rw [dropped.gc, dropped.zero, dropped.tmp]; exact inv.distinct
    listed := by rw [dropped.gc, dropped.zero, dropped.tmp, dropped.contents]; exact inv.listed
    inPhase := dropped.phase.trans inv.inPhase
    busyNodup := List.nodup_cons.2 ⟨idle, inv.busyNodup⟩
    busyThere := fun q there => ?_
    busyCount := fun q there why => ?_
    others := fun q there free other => ?_
    gcOwned := fun q there free => ?_
    tmpOwned := fun q there free => ?_
    stays := by rw [dropped.gc]; exact inv.stays
    marks := by rw [dropped.gc, dropped.marks]; exact inv.marks
    removing := by rw [dropped.gc, dropped.zero]; exact inv.removing
    counting := fun decref => ?_ }
  · rw [dropped.contents]
    refine inv.there q ?_
    have more : pending.count q ≤ (p :: pending).count q := by
      rw [List.count_cons]
      omega
    omega
  · rw [dropped.contents]
    rcases List.mem_cons.1 there with rfl | later
    · exact known
    · exact inv.busyThere q later
  · by_cases equal : q = p
    · rw [equal, gone]
    · rw [same q equal]
      exact inv.busyCount q ((List.mem_cons.1 there).resolve_left equal) why
  · rw [dropped.contents] at there
    rw [List.mem_cons, not_or] at free
    rw [same q free.1]
    exact inv.others q there free.2 other
  · rw [dropped.gc] at there
    exact inv.gcOwned q there fun member => free (List.mem_cons_of_mem _ member)
  · rw [dropped.tmp] at there
    exact inv.tmpOwned q there fun member => free (List.mem_cons_of_mem _ member)
  · obtain ⟨none, positive, queued⟩ := inv.counting decref
    rw [dropped.tmp, dropped.gc, dropped.zero]
    refine ⟨none, fun q there free => ?_, fun q there => ?_⟩
    · rw [List.mem_cons, not_or] at free
      rw [same q free.1]
      exact positive q there free.2
    · obtain ⟨value, owner, uncounted⟩ := queued q there
      refine ⟨value, fun free => owner fun member => free (List.mem_cons_of_mem _ member), ?_⟩
      by_cases equal : q = p
      · rw [equal, gone]
      · rw [same q equal]
        exact uncounted

theorem freeing_disown (inv : Freeing phase outside contents kept busy owners pending rt)
    (member : p ∈ owners) (now : p ∈ busy) (leaves : p ∉ kept) :
    Freeing phase outside contents kept busy (owners.erase p) (refsOf contents p ++ pending) rt := by
  have total : ∀ q, outside q + inward (refsOf contents) (owners.erase p) q +
      (refsOf contents p ++ pending).count q =
      outside q + inward (refsOf contents) owners q + pending.count q := by
    intro q
    rw [inward_erase member, List.count_append]
    omega
  have still : ∀ q, q ∉ busy → q ∈ owners → q ∈ owners.erase p := by
    intro q idle there
    have other : q ≠ p := by
      rintro rfl
      exact idle now
    exact (List.mem_erase_of_ne other).2 there
  have keeps : ∀ q ∈ kept, q ∈ owners.erase p := by
    intro q there
    have other : q ≠ p := by
      rintro rfl
      exact leaves there
    exact (List.mem_erase_of_ne other).2 (inv.stays q there).1
  exact { inv with
    ownersNodup := inv.ownersNodup.erase p
    counts := fun q there => by rw [total]; exact inv.counts q there
    there := fun q positive => inv.there q (by rw [← total]; exact positive)
    intact := fun q there => inv.intact q (List.mem_of_mem_erase there)
    others := fun q there idle other =>
      ⟨still q idle (inv.others q there idle other).1, (inv.others q there idle other).2⟩
    gcOwned := fun q there idle => still q idle (inv.gcOwned q there idle)
    tmpOwned := fun q there idle => still q idle (inv.tmpOwned q there idle)
    stays := fun q there => ⟨keeps q there, (inv.stays q there).2⟩
    removing := fun removing => ⟨(inv.removing removing).1, fun q there value owner =>
      (inv.removing removing).2 q there value (List.mem_of_mem_erase owner)⟩
    counting := fun decref => ⟨(inv.counting decref).1, (inv.counting decref).2.1, fun q there =>
      ⟨((inv.counting decref).2.2 q there).1,
        fun idle => still q idle (((inv.counting decref).2.2 q there).2.1 idle),
        ((inv.counting decref).2.2 q there).2.2⟩⟩ }

theorem mem_listDel (distinct : (rt.gcObjList ++ rt.gcZeroRefCountList ++ rt.tmpObjList).Nodup)
    (q : Addr) :
    (q ∈ (rt.listDel p).gcObjList ↔ q ≠ p ∧ q ∈ rt.gcObjList) ∧
    (q ∈ (rt.listDel p).gcZeroRefCountList ↔ q ≠ p ∧ q ∈ rt.gcZeroRefCountList) ∧
    (q ∈ (rt.listDel p).tmpObjList ↔ q ≠ p ∧ q ∈ rt.tmpObjList) := by
  obtain ⟨front, tmp, -⟩ := List.nodup_append.1 distinct
  obtain ⟨gc, zero, -⟩ := List.nodup_append.1 front
  exact ⟨gc.mem_erase_iff, zero.mem_erase_iff, tmp.mem_erase_iff⟩

theorem distinct_listDel (distinct : (rt.gcObjList ++ rt.gcZeroRefCountList ++ rt.tmpObjList).Nodup) :
    ((rt.listDel p).gcObjList ++ (rt.listDel p).gcZeroRefCountList ++
      (rt.listDel p).tmpObjList).Nodup :=
  distinct.sublist ((List.erase_sublist.append List.erase_sublist).append List.erase_sublist)

theorem freeing_leave (inv : Freeing phase outside contents kept (p :: busy) owners pending rt)
    (uncounted : rt.count p = 0) (disowned : p ∉ owners) :
    ∃ rt', (rt.listDel p).jsFreeRT p = some rt' ∧
      Freeing phase outside contents kept busy owners pending rt' ∧ Shrinks owners owners rt rt' := by
  have known := inv.busyThere p List.mem_cons_self
  obtain ⟨c, here⟩ := Option.ne_none_iff_exists'.1 known
  obtain ⟨o, cell, -⟩ := heap_of_contents here
  have fresh := (List.nodup_cons.1 inv.busyNodup).1
  obtain ⟨rt', made⟩ : ∃ rt', rt' = (rt.listDel p).set p none := ⟨_, rfl⟩
  have contents₁ : ∀ q, rt'.contents q = if q = p then none else rt.contents q := by
    intro q
    by_cases equal : q = p <;> simp [made, Runtime.contents, Runtime.set, Runtime.listDel, equal]
  have count₁ : ∀ q, q ≠ p → rt'.count q = rt.count q := by
    intro q other
    simp [made, Runtime.count, Runtime.set, Runtime.listDel, other]
  have marks₁ : ∀ q, q ≠ p → rt'.markOf q = rt.markOf q := by
    intro q other
    simp [made, Runtime.markOf, Runtime.set, Runtime.listDel, other]
  have lists := @mem_listDel rt p inv.distinct
  have gc₁ : ∀ q, q ∈ rt'.gcObjList ↔ q ≠ p ∧ q ∈ rt.gcObjList := by
    rw [made]
    exact fun q => (lists q).1
  have zero₁ : ∀ q, q ∈ rt'.gcZeroRefCountList ↔ q ≠ p ∧ q ∈ rt.gcZeroRefCountList := by
    rw [made]
    exact fun q => (lists q).2.1
  have tmp₁ : ∀ q, q ∈ rt'.tmpObjList ↔ q ≠ p ∧ q ∈ rt.tmpObjList := by
    rw [made]
    exact fun q => (lists q).2.2
  have still : ∀ q, rt'.contents q ≠ none → q ≠ p ∧ rt.contents q ≠ none := by
    intro q there
    rw [contents₁] at there
    split at there
    · exact absurd rfl there
    · next other => exact ⟨other, there⟩
  have idle : ∀ q, q ≠ p → q ∉ busy → q ∉ p :: busy := fun q other free member =>
    (List.mem_cons.1 member).elim other free
  refine ⟨rt', ?_, ?_, ⟨fun _ h => h, fun q there => (still q there).2, fun q there =>
    ((tmp₁ q).1 there).2⟩⟩
  · rw [made]
    simp [Runtime.jsFreeRT, Runtime.listDel, cell]
  refine {
    ownersNodup := inv.ownersNodup
    counts := fun q there => ?_
    there := fun q positive => ?_
    intact := fun q there => ?_
    types := fun q c there => ?_
    distinct := by rw [made]; exact distinct_listDel inv.distinct
    listed := fun q => ?_
    inPhase := by rw [made]; exact inv.inPhase
    busyNodup := (List.nodup_cons.1 inv.busyNodup).2
    busyThere := fun q there => ?_
    busyCount := fun q there why => ?_
    others := fun q there free other => ?_
    gcOwned := fun q there free => ?_
    tmpOwned := fun q there free => ?_
    stays := fun q there => ?_
    marks := fun q there => ?_
    removing := fun removing => ⟨fun q there => ?_, fun q there value => ?_⟩
    counting := fun decref => ⟨?_, fun q there free => ?_, fun q there => ?_⟩ }
  · obtain ⟨other, before⟩ := still q there
    rw [count₁ q other]
    exact inv.counts q before
  · have before := inv.there q positive
    rw [contents₁]
    split
    · next equal =>
      have tallied := inv.counts q before
      rw [equal] at tallied positive
      omega
    · exact before
  · have other : q ≠ p := by
      rintro rfl
      exact disowned there
    rw [contents₁, if_neg other]
    exact inv.intact q there
  · rw [contents₁] at there
    split at there
    · cases there
    · exact inv.types q c there
  · rw [List.mem_append, List.mem_append, gc₁, zero₁, tmp₁, contents₁]
    have before := inv.listed q
    rw [List.mem_append, List.mem_append] at before
    split
    · next equal => simp [equal]
    · next other => simpa [other] using before
  · have other : q ≠ p := by
      rintro rfl
      exact fresh there
    rw [contents₁, if_neg other]
    exact inv.busyThere q (List.mem_cons_of_mem _ there)
  · have other : q ≠ p := by
      rintro rfl
      exact fresh there
    rw [count₁ q other]
    exact inv.busyCount q (List.mem_cons_of_mem _ there) why
  · obtain ⟨away, before⟩ := still q there
    rw [count₁ q away]
    exact inv.others q before (idle q away free) other
  · obtain ⟨other, before⟩ := (gc₁ q).1 there
    exact inv.gcOwned q before (idle q other free)
  · obtain ⟨other, before⟩ := (tmp₁ q).1 there
    exact inv.tmpOwned q before (idle q other free)
  · obtain ⟨owner, before⟩ := inv.stays q there
    have other : q ≠ p := by
      rintro rfl
      exact disowned owner
    exact ⟨owner, (gc₁ q).2 ⟨other, before⟩⟩
  · obtain ⟨other, before⟩ := (gc₁ q).1 there
    rw [marks₁ q other]
    exact inv.marks q before
  · exact (inv.removing removing).1 q ((gc₁ q).1 there).2
  · exact (inv.removing removing).2 q ((zero₁ q).1 there).2 value
  · have none := (inv.counting decref).1
    rw [List.eq_nil_iff_forall_not_mem]
    intro q there
    have before := ((tmp₁ q).1 there).2
    rw [none] at before
    cases before
  · obtain ⟨other, before⟩ := (gc₁ q).1 there
    rw [count₁ q other]
    exact (inv.counting decref).2.1 q before (idle q other free)
  · obtain ⟨other, before⟩ := (zero₁ q).1 there
    obtain ⟨value, owner, none⟩ := (inv.counting decref).2.2 q before
    rw [count₁ q other]
    exact ⟨value, fun free => owner (idle q other free), none⟩

/-- A busy object that is still to release its references waits on the list of objects with
    no count. -/
theorem freeing_queue (inv : Freeing .decref outside contents kept (p :: busy) owners pending rt)
    (value : valued contents p = true) (member : p ∈ owners) (here : p ∈ rt.gcObjList)
    (leaves : p ∉ kept) : Freeing .decref outside contents kept busy owners pending (queueZero rt p) := by
  have notRemoving : rt.gcPhase ≠ .removeCycles := by
    rw [inv.inPhase]
    exact GCPhase.noConfusion
  obtain ⟨rt', made⟩ : ∃ rt', rt' = queueZero rt p := ⟨_, rfl⟩
  rw [← made]
  rw [queueZero, if_neg notRemoving] at made
  have contents₁ : rt'.contents = rt.contents := by rw [made]; rfl
  have count₁ : rt'.count = rt.count := by rw [made]; rfl
  have marks₁ : rt'.markOf = rt.markOf := by rw [made]; rfl
  have lists := @mem_listDel rt p inv.distinct
  have gc₁ : ∀ q, q ∈ rt'.gcObjList ↔ q ≠ p ∧ q ∈ rt.gcObjList := by
    rw [made]
    exact fun q => (lists q).1
  have absent : p ∉ rt.gcZeroRefCountList := by
    obtain ⟨front, -, -⟩ := List.nodup_append.1 inv.distinct
    exact fun there => (List.nodup_append.1 front).2.2 p here p there rfl
  have zero₁ : rt'.gcZeroRefCountList = p :: rt.gcZeroRefCountList := by
    rw [made]
    show p :: rt.gcZeroRefCountList.erase p = _
    rw [List.erase_of_not_mem absent]
  have tmp₁ : rt'.tmpObjList = [] := by
    rw [made]
    show rt.tmpObjList.erase p = []
    rw [(inv.counting rfl).1]
    rfl
  have idle : ∀ q, q ≠ p → q ∉ busy → q ∉ p :: busy := fun q other free member =>
    (List.mem_cons.1 member).elim other free
  refine {
    ownersNodup := inv.ownersNodup
    counts := by rw [contents₁, count₁]; exact inv.counts
    there := by rw [contents₁]; exact inv.there
    intact := by rw [contents₁]; exact inv.intact
    types := by rw [contents₁]; exact inv.types
    distinct := ?_
    listed := fun q => ?_
    inPhase := by rw [made]; exact inv.inPhase
    busyNodup := (List.nodup_cons.1 inv.busyNodup).2
    busyThere := fun q there => by
      rw [contents₁]
      exact inv.busyThere q (List.mem_cons_of_mem _ there)
    busyCount := fun q there => by
      rw [count₁]
      exact inv.busyCount q (List.mem_cons_of_mem _ there)
    others := fun q there free other => ?_
    gcOwned := fun q there free => ?_
    tmpOwned := fun q there => by
      rw [tmp₁] at there
      cases there
    stays := fun q there => ⟨(inv.stays q there).1, (gc₁ q).2 ⟨?_, (inv.stays q there).2⟩⟩
    marks := fun q there => by
      rw [marks₁]
      exact inv.marks q ((gc₁ q).1 there).2
    removing := fun removing => by cases removing
    counting := fun decref => ⟨tmp₁, fun q there free => ?_, fun q there => ?_⟩ }
  · rw [tmp₁, zero₁, List.append_nil]
    have before := inv.distinct
    rw [(inv.counting rfl).1, List.append_nil] at before
    have moved : (rt'.gcObjList ++ p :: rt.gcZeroRefCountList).Perm
        (rt.gcObjList ++ rt.gcZeroRefCountList) := by
      rw [made]
      show (rt.gcObjList.erase p ++ p :: rt.gcZeroRefCountList).Perm _
      refine List.perm_middle.trans ?_
      rw [← List.cons_append]
      exact (List.perm_cons_erase here).symm.append_right _
    exact moved.nodup_iff.2 before
  · have before := inv.listed q
    rw [(inv.counting rfl).1, List.append_nil, List.mem_append] at before
    rw [tmp₁, zero₁, contents₁, List.append_nil, List.mem_append, gc₁, List.mem_cons]
    by_cases equal : q = p
    · simp [equal, (inv.listed p).1 (by simp [here])]
    · simpa [equal] using before
  · rw [contents₁] at there
    rw [count₁]
    refine inv.others q there (idle q ?_ free) other
    rintro rfl
    rw [value] at other
    cases other
  · obtain ⟨other, before⟩ := (gc₁ q).1 there
    exact inv.gcOwned q before (idle q other free)
  · rintro rfl
    exact leaves there
  · obtain ⟨other, before⟩ := (gc₁ q).1 there
    rw [count₁]
    exact (inv.counting rfl).2.1 q before (idle q other free)
  · rw [count₁]
    rw [zero₁, List.mem_cons] at there
    by_cases equal : q = p
    · rw [equal]
      exact ⟨value, fun _ => member, inv.busyCount p List.mem_cons_self (.inl rfl)⟩
    · obtain ⟨value, owner, none⟩ := (inv.counting rfl).2.2 q (there.resolve_left equal)
      exact ⟨value, fun free => owner (idle q equal free), none⟩

end Invariant

section Freeing
variable {phase : GCPhase} {outside : Addr → Nat} {contents : Addr → Option Content} {kept : List Addr}
variable (active : phase ≠ .none) (typed : WellTyped contents) (keptNodup : kept.Nodup)
  (supported : ∀ p ∈ kept, 0 < outside p + inward (refsOf contents) kept p)
variable {busy owners pending : List Addr} {rt : Runtime} {p : Addr}
include keptNodup supported

theorem leaves_of_last (inv : Freeing phase outside contents kept busy owners (p :: pending) rt)
    (last : rt.count p = 1) : p ∉ kept := by
  intro there
  have tallied := inv.counts p (inv.there p (by rw [List.count_cons_self]; omega))
  have inside := @inward_subset _ _ (refsOf contents) kept owners p keptNodup
    fun q member => (inv.stays q member).1
  have positive := supported p there
  rw [List.count_cons_self] at tallied
  omega

/-- The functions that count down an allocation no value points to, and free it with the last
    reference, after they have released what it holds. -/
theorem free_counted (other : valued contents p = false)
    (releases : ∀ c owners' rt₁, contents p = some c →
      Freeing phase outside contents kept (p :: busy) owners' (targets c.releases ++ pending) rt₁ →
      ∃ rt₂ owners₂, freePointers rt₁ c.releases = some rt₂ ∧
        Freeing phase outside contents kept (p :: busy) owners₂ pending rt₂ ∧
        Shrinks owners' owners₂ rt₁ rt₂)
    (inv : Freeing phase outside contents kept busy owners (p :: pending) rt) :
    ∃ rt₁ o rt' owners', decrement rt p = some (rt₁, o) ∧ contents p = some o.content ∧
      (if o.refCount = 0 then
        (freePointers rt₁ o.content.releases).bind fun freed => (freed.listDel p).jsFreeRT p
        else some rt₁) = some rt' ∧
      Freeing phase outside contents kept busy owners' pending rt' ∧
      Shrinks owners owners' rt rt' := by
  obtain ⟨o, cell, positive⟩ := pending_cell inv
  obtain ⟨rt₁, made⟩ : ∃ rt₁, rt₁ = rt.set p (some { o with refCount := o.refCount - 1 }) := ⟨_, rfl⟩
  have dropped : Dropped p rt rt₁ := made ▸ dropped_set cell
  have idle : p ∉ busy := by
    intro there
    have none := inv.busyCount p there (.inr other)
    rw [count_of cell] at none
    omega
  have member := (inv.others p (by rw [contents_of cell]; exact Option.some_ne_none _) idle other).1
  have whole : contents p = some o.content := by
    rw [← (inv.intact p member).2]
    exact contents_of cell
  have shrinks : Shrinks owners owners rt rt₁ :=
    ⟨fun _ h => h, fun q there => by rw [← dropped.contents]; exact there,
      fun q there => dropped.tmp ▸ there⟩
  refine ⟨rt₁, { o with refCount := o.refCount - 1 }, ?_⟩
  by_cases last : o.refCount = 1
  · have lastCount : rt.count p = 1 := (count_of cell).trans last
    have leaves := leaves_of_last keptNodup supported inv lastCount
    have entered := freeing_disown (freeing_last inv dropped lastCount idle) member List.mem_cons_self
      leaves
    have children : refsOf contents p = o.content.children := by simp [refsOf, whole]
    rw [children] at entered
    obtain ⟨rt₂, owners₂, released, inv₂, shrinks₂⟩ := releases _ _ _ whole
      (freeing_perm ((releases_children o.content).symm.append_right pending) entered)
    have disowned : p ∉ owners₂ := fun there =>
      inv.ownersNodup.not_mem_erase (shrinks₂.owners p there)
    obtain ⟨rt₃, freed, inv₃, shrinks₃⟩ :=
      freeing_leave inv₂ (inv₂.busyCount p List.mem_cons_self (.inr other)) disowned
    refine ⟨rt₃, owners₂, ?_, whole, ?_, inv₃, ?_⟩
    · rw [decrement_some cell positive, made]
    · rw [if_pos (by simp only; omega), released, Option.bind_some]
      exact freed
    · refine shrinks.trans (Shrinks.trans ?_ shrinks₃)
      exact ⟨fun q there => List.mem_of_mem_erase (shrinks₂.owners q there), shrinks₂.heap,
        shrinks₂.tmp⟩
  · refine ⟨rt₁, owners, ?_, whole, ?_, ?_, shrinks⟩
    · rw [decrement_some cell positive, made]
    · rw [if_neg (by simp only; omega)]
    · exact freeing_drop inv dropped (.inl (by rw [count_of cell]; omega))

include active

theorem free_value {v : JSValue} (value : (Pointer.value v).Typed contents)
    (inv : Freeing phase outside contents kept busy owners (markValue v ++ pending) rt) :
    ∃ rt', freeNested rt v = some rt' ∧
      Freeing phase outside contents kept busy owners pending rt' ∧ Shrinks owners owners rt rt' := by
  cases found : gcAddr? v with
  | none =>
    refine ⟨rt, by simp [freeNested, found], ?_, .refl⟩
    simpa [markValue, found] using inv
  | some p =>
    have pointed : valued contents p = true := value p found
    replace inv : Freeing phase outside contents kept busy owners (p :: pending) rt := by
      simpa [markValue, found] using inv
    obtain ⟨o, cell, positive⟩ := pending_cell inv
    obtain ⟨rt₁, made⟩ : ∃ rt₁, rt₁ = rt.set p (some { o with refCount := o.refCount - 1 }) :=
      ⟨_, rfl⟩
    have dropped : Dropped p rt rt₁ := made ▸ dropped_set cell
    have same : ∀ q, rt₁.contents q ≠ none → rt.contents q ≠ none := by
      rw [dropped.contents]
      exact fun _ there => there
    have step : freeNested rt v = some (if o.refCount - 1 = 0 then queueZero rt₁ p else rt₁) := by
      simp only [freeNested, found, decrement_some cell positive, Option.bind_eq_bind,
        Option.bind_some, ← made]
      rfl
    by_cases last : o.refCount = 1
    · have lastCount : rt.count p = 1 := (count_of cell).trans last
      rw [if_pos (by omega)] at step
      cases phase with
      | none => exact absurd rfl active
      | removeCycles =>
        have quiet : queueZero rt₁ p = rt₁ := by
          rw [queueZero, if_pos (dropped.phase.trans inv.inPhase)]
        rw [quiet] at step
        exact ⟨rt₁, step, freeing_drop inv dropped (.inr ⟨rfl, pointed⟩),
          ⟨fun _ h => h, same, fun q h => dropped.tmp ▸ h⟩⟩
      | decref =>
        have idle : p ∉ busy := by
          intro there
          have none := inv.busyCount p there (.inl rfl)
          omega
        have leaves := leaves_of_last keptNodup supported inv lastCount
        have somewhere := (inv.listed p).2 (inv.there p (by rw [List.count_cons_self]; omega))
        have here : p ∈ rt.gcObjList := by
          obtain ⟨none, -, queued⟩ := inv.counting rfl
          rw [none, List.append_nil, List.mem_append] at somewhere
          refine somewhere.resolve_right fun there => ?_
          have uncounted := (queued p there).2.2
          omega
        have entered := freeing_last inv dropped lastCount idle
        refine ⟨queueZero rt₁ p, step, freeing_queue entered pointed (inv.gcOwned p here idle)
          (by rw [dropped.gc]; exact here) leaves, ⟨fun _ h => h, ?_, ?_⟩⟩
        · intro q there
          refine same q ?_
          unfold queueZero at there
          split at there <;> exact there
        · intro q there
          unfold queueZero at there
          rw [← dropped.tmp]
          split at there
          · exact there
          · exact List.mem_of_mem_erase there
    · rw [if_neg (by omega)] at step
      exact ⟨rt₁, step, freeing_drop inv dropped (.inl (by rw [count_of cell]; omega)),
        ⟨fun _ h => h, same, fun q h => dropped.tmp ▸ h⟩⟩

end Freeing

section Pointers
variable {phase : GCPhase} {outside : Addr → Nat} {contents : Addr → Option Content} {kept : List Addr}
variable {busy owners pending : List Addr} {rt : Runtime} {p : Addr}

/-- A release that succeeds and leaves only the references in `pending`. -/
def Released (phase : GCPhase) (outside : Addr → Nat) (contents : Addr → Option Content)
    (kept busy owners pending : List Addr) (rt : Runtime) (result : Option Runtime) : Prop :=
  ∃ rt' owners', result = some rt' ∧
    Freeing phase outside contents kept busy owners' pending rt' ∧ Shrinks owners owners' rt rt'

theorem freePointers_values (vs : List JSValue) : freePointers rt (vs.map .value) = freeValues rt vs := by
  rw [freePointers, freeValues, List.foldlM_map]
  rfl

theorem freePointers_leaves (ls : List Leaf) : freePointers rt (ls.map .leaf) = ls.foldlM freeLeaf rt := by
  rw [freePointers, List.foldlM_map]
  rfl

theorem freePointers_cons (ptr : Pointer) (ptrs : List Pointer) :
    freePointers rt (ptr :: ptrs) = (freePointer rt ptr).bind fun rt' => freePointers rt' ptrs := rfl

theorem freePointers_append (ptrs ptrs' : List Pointer) :
    freePointers rt (ptrs ++ ptrs') = (freePointers rt ptrs).bind fun rt' => freePointers rt' ptrs' := by
  simp [freePointers]

theorem not_valued {t : GCObjType} (type : typeOf contents p = some t) (other : t.isValue = false) :
    valued contents p = false := by simp [valued, type, other]

variable (active : phase ≠ .none) (typed : WellTyped contents) (keptNodup : kept.Nodup)
  (supported : ∀ p ∈ kept, 0 < outside p + inward (refsOf contents) kept p)

theorem release_all {ptrs : List Pointer}
    (each : ∀ ptr ∈ ptrs, ∀ busy owners pending rt,
      Freeing phase outside contents kept busy owners (ptr.target?.toList ++ pending) rt →
      Released phase outside contents kept busy owners pending rt (freePointer rt ptr))
    (inv : Freeing phase outside contents kept busy owners (targets ptrs ++ pending) rt) :
    Released phase outside contents kept busy owners pending rt (freePointers rt ptrs) := by
  induction ptrs generalizing owners rt with
  | nil => exact ⟨rt, owners, rfl, inv, .refl⟩
  | cons ptr rest ih =>
    rw [targets_cons, List.append_assoc] at inv
    obtain ⟨rt₁, owners₁, first, inv₁, shrinks₁⟩ := each ptr List.mem_cons_self _ _ _ _ inv
    obtain ⟨rt₂, owners₂, later, inv₂, shrinks₂⟩ :=
      ih (fun ptr' m => each ptr' (List.mem_cons_of_mem _ m)) inv₁
    refine ⟨rt₂, owners₂, ?_, inv₂, shrinks₁.trans shrinks₂⟩
    rw [freePointers_cons, first, Option.bind_some, later]

include active keptNodup supported

theorem release_value {v : JSValue} (value : (Pointer.value v).Typed contents)
    (inv : Freeing phase outside contents kept busy owners ((Pointer.value v).target?.toList ++ pending) rt) :
    Released phase outside contents kept busy owners pending rt (freeNested rt v) := by
  obtain ⟨rt', freed, inv', shrinks⟩ := free_value active keptNodup supported value inv
  exact ⟨rt', owners, freed, inv', shrinks⟩

include typed

theorem release_values {c : Content} {vs : List JSValue} (here : contents p = some c)
    (holds : c.releases = vs.map .value) (busy owners pending : List Addr) (rt : Runtime)
    (inv : Freeing phase outside contents kept busy owners (targets c.releases ++ pending) rt) :
    Released phase outside contents kept busy owners pending rt (freePointers rt c.releases) := by
  refine release_all (fun ptr member busy owners pending rt inv => ?_) inv
  have pointed := typed.typed p c here ptr member
  rw [holds] at member
  obtain ⟨v, -, rfl⟩ := List.mem_map.1 member
  exact release_value active keptNodup supported pointed inv

theorem release_shape (type : typeOf contents p = some .shape)
    (inv : Freeing phase outside contents kept busy owners (p :: pending) rt) :
    Released phase outside contents kept busy owners pending rt (jsFreeShape rt p) := by
  have holds : ∀ c, contents p = some c → ∃ proto, c = .shape proto := by
    intro c here
    have same : c.gcObjType = .shape := by simpa [typeOf, here] using type
    cases c with
    | shape proto => exact ⟨proto, rfl⟩
    | header t => exact absurd here (typed.whole p t)
    | _ => cases same
  obtain ⟨rt₁, o, rt', owners', decremented, whole, freed, inv', shrinks⟩ :=
    free_counted keptNodup supported (not_valued type rfl) (fun c owners' rt₁ here inv₁ => by
      obtain ⟨proto, rfl⟩ := holds c here
      exact release_values active typed keptNodup supported here rfl _ _ _ _ inv₁) inv
  refine ⟨rt', owners', ?_, inv', shrinks⟩
  obtain ⟨proto, shaped⟩ := holds _ whole
  rw [shaped] at freed
  simp only [jsFreeShape, decremented, Option.bind_eq_bind, Option.bind_some, shaped]
  rw [← freed]
  simp only [Content.releases, freePointers_values]
  rfl

theorem release_varRef (type : typeOf contents p = some .varRef)
    (inv : Freeing phase outside contents kept busy owners (p :: pending) rt) :
    Released phase outside contents kept busy owners pending rt (freeVarRef rt p) := by
  have holds : ∀ c, contents p = some c → ∃ value, c = .varRef value := by
    intro c here
    have same : c.gcObjType = .varRef := by simpa [typeOf, here] using type
    cases c with
    | varRef value => exact ⟨value, rfl⟩
    | header t => exact absurd here (typed.whole p t)
    | _ => cases same
  obtain ⟨rt₁, o, rt', owners', decremented, whole, freed, inv', shrinks⟩ :=
    free_counted keptNodup supported (not_valued type rfl) (fun c owners' rt₁ here inv₁ => by
      obtain ⟨value, rfl⟩ := holds c here
      have single : (Content.varRef value).releases = [value].map .value := rfl
      exact release_values active typed keptNodup supported here single _ _ _ _ inv₁) inv
  refine ⟨rt', owners', ?_, inv', shrinks⟩
  obtain ⟨value, shaped⟩ := holds _ whole
  rw [shaped] at freed
  simp only [freeVarRef, decremented, Option.bind_eq_bind, Option.bind_some, shaped]
  rw [← freed]
  simp [Content.releases, freePointers, freePointer, freeLeaf, Pointer.value]

theorem release_leaf {l : Leaf} (pointed : (Pointer.leaf l).Typed contents)
    (inv : Freeing phase outside contents kept busy owners (l.target?.toList ++ pending) rt) :
    Released phase outside contents kept busy owners pending rt (freeLeaf rt l) := by
  cases l with
  | value v => exact release_value active keptNodup supported pointed inv
  | shape p => exact release_shape active typed keptNodup supported pointed inv
  | varRef p => exact release_varRef active typed keptNodup supported pointed inv

theorem release_context (type : typeOf contents p = some .jsContext)
    (inv : Freeing phase outside contents kept busy owners (p :: pending) rt) :
    Released phase outside contents kept busy owners pending rt (jsFreeContext rt p) := by
  have holds : ∀ c, contents p = some c → ∃ modules values arrayShape,
      c = .jsContext modules values arrayShape := by
    intro c here
    have same : c.gcObjType = .jsContext := by simpa [typeOf, here] using type
    cases c with
    | jsContext modules values arrayShape => exact ⟨modules, values, arrayShape, rfl⟩
    | header t => exact absurd here (typed.whole p t)
    | _ => cases same
  obtain ⟨rt₁, o, rt', owners', decremented, whole, freed, inv', shrinks⟩ :=
    free_counted keptNodup supported (not_valued type rfl) (fun c owners' rt₁ here inv₁ => by
      obtain ⟨modules, values, arrayShape, rfl⟩ := holds c here
      refine release_all (fun ptr member busy owners pending rt inv => ?_) inv₁
      have pointed := typed.typed p _ here ptr member
      obtain ⟨l, -, rfl⟩ := List.mem_map.1 member
      exact release_leaf active typed keptNodup supported pointed inv) inv
  refine ⟨rt', owners', ?_, inv', shrinks⟩
  obtain ⟨modules, values, arrayShape, shaped⟩ := holds _ whole
  rw [shaped] at freed
  simp only [jsFreeContext, decremented, Option.bind_eq_bind, Option.bind_some, shaped]
  rw [← freed]
  simp only [Content.releases, freePointers_leaves]
  rfl

theorem release_asyncFunction (type : typeOf contents p = some .asyncFunction)
    (inv : Freeing phase outside contents kept busy owners (p :: pending) rt) :
    Released phase outside contents kept busy owners pending rt (jsAsyncFunctionFree rt p) := by
  have holds : ∀ c, contents p = some c → ∃ funcState resolvingFuncs,
      c = .asyncFunction funcState resolvingFuncs := by
    intro c here
    have same : c.gcObjType = .asyncFunction := by simpa [typeOf, here] using type
    cases c with
    | asyncFunction funcState resolvingFuncs => exact ⟨funcState, resolvingFuncs, rfl⟩
    | header t => exact absurd here (typed.whole p t)
    | _ => cases same
  obtain ⟨rt₁, o, rt', owners', decremented, whole, freed, inv', shrinks⟩ :=
    free_counted keptNodup supported (not_valued type rfl) (fun c owners' rt₁ here inv₁ => by
      obtain ⟨funcState, resolvingFuncs, rfl⟩ := holds c here
      exact release_values active typed keptNodup supported here rfl _ _ _ _ inv₁) inv
  refine ⟨rt', owners', ?_, inv', shrinks⟩
  obtain ⟨funcState, resolvingFuncs, shaped⟩ := holds _ whole
  rw [shaped] at freed
  simp only [jsAsyncFunctionFree, decremented, Option.bind_eq_bind, Option.bind_some, shaped]
  rw [← freed]
  simp only [Content.releases, freePointers_values]
  rfl

theorem release_pointer {ptr : Pointer} (pointed : ptr.Typed contents)
    (inv : Freeing phase outside contents kept busy owners (ptr.target?.toList ++ pending) rt) :
    Released phase outside contents kept busy owners pending rt (freePointer rt ptr) := by
  cases ptr with
  | leaf l => exact release_leaf active typed keptNodup supported pointed inv
  | context p => exact release_context active typed keptNodup supported pointed inv
  | asyncFunction p => exact release_asyncFunction active typed keptNodup supported pointed inv

theorem release_pointers {ptrs : List Pointer} (pointed : ∀ ptr ∈ ptrs, ptr.Typed contents)
    (inv : Freeing phase outside contents kept busy owners (targets ptrs ++ pending) rt) :
    Released phase outside contents kept busy owners pending rt (freePointers rt ptrs) :=
  release_all (fun ptr member _ _ _ _ inv =>
    release_pointer active typed keptNodup supported (pointed ptr member) inv) inv

end Pointers

section Objects
variable {phase : GCPhase} {outside : Addr → Nat} {contents : Addr → Option Content} {kept : List Addr}
variable {busy owners pending : List Addr} {rt rt' : Runtime} {p : Addr} {o : GCObject}

theorem freeing_start (inv : Freeing phase outside contents kept busy owners pending rt)
    (idle : p ∉ busy) (there : rt.contents p ≠ none)
    (uncounted : phase = .decref ∨ valued contents p = false → rt.count p = 0) :
    Freeing phase outside contents kept (p :: busy) owners pending rt :=
  { inv with
    busyNodup := List.nodup_cons.2 ⟨idle, inv.busyNodup⟩
    busyThere := fun q member => (List.mem_cons.1 member).elim (fun equal => equal ▸ there)
      (inv.busyThere q)
    busyCount := fun q member => (List.mem_cons.1 member).elim (fun equal => equal ▸ uncounted)
      (inv.busyCount q)
    others := fun q known free =>
      inv.others q known fun member => free (List.mem_cons_of_mem _ member)
    gcOwned := fun q known free =>
      inv.gcOwned q known fun member => free (List.mem_cons_of_mem _ member)
    tmpOwned := fun q known free =>
      inv.tmpOwned q known fun member => free (List.mem_cons_of_mem _ member)
    counting := fun decref => ⟨(inv.counting decref).1,
      fun q known free => (inv.counting decref).2.1 q known fun member =>
        free (List.mem_cons_of_mem _ member),
      fun q known => ⟨((inv.counting decref).2.2 q known).1,
        fun free => ((inv.counting decref).2.2 q known).2.1 fun member =>
          free (List.mem_cons_of_mem _ member),
        ((inv.counting decref).2.2 q known).2.2⟩⟩ }

theorem freeing_freeMark (cell : rt.heap p = some o)
    (inv : Freeing phase outside contents kept busy owners pending rt) :
    Freeing phase outside contents kept busy owners pending
      (rt.set p (some { o with freeMark := true })) := by
  obtain ⟨rt', made⟩ : ∃ rt', rt' = rt.set p (some { o with freeMark := true }) := ⟨_, rfl⟩
  have contents₁ : rt'.contents = rt.contents := by
    rw [made]
    exact contents_freeMark cell true
  have count₁ : rt'.count = rt.count := by
    funext q
    rw [made, count_set]
    split
    · next equal => rw [equal, count_of cell]
    · rfl
  have marks₁ : rt'.markOf = rt.markOf := by
    funext q
    rw [made, markOf_set]
    split
    · next equal => rw [equal, markOf_of cell]
    · rfl
  have gc₁ : rt'.gcObjList = rt.gcObjList := by rw [made]; rfl
  have zero₁ : rt'.gcZeroRefCountList = rt.gcZeroRefCountList := by rw [made]; rfl
  have tmp₁ : rt'.tmpObjList = rt.tmpObjList := by rw [made]; rfl
  rw [← made]
  exact {
    ownersNodup := inv.ownersNodup
    counts := by rw [contents₁, count₁]; exact inv.counts
    there := by rw [contents₁]; exact inv.there
    intact := by rw [contents₁]; exact inv.intact
    types := by rw [contents₁]; exact inv.types
    distinct := by rw [gc₁, zero₁, tmp₁]; exact inv.distinct
    listed := by rw [gc₁, zero₁, tmp₁, contents₁]; exact inv.listed
    inPhase := by rw [made]; exact inv.inPhase
    busyNodup := inv.busyNodup
    busyThere := by rw [contents₁]; exact inv.busyThere
    busyCount := by rw [count₁]; exact inv.busyCount
    others := by rw [contents₁, count₁]; exact inv.others
    gcOwned := by rw [gc₁]; exact inv.gcOwned
    tmpOwned := by rw [tmp₁]; exact inv.tmpOwned
    stays := by rw [gc₁]; exact inv.stays
    marks := by rw [gc₁, marks₁]; exact inv.marks
    removing := by rw [gc₁, zero₁]; exact inv.removing
    counting := by rw [tmp₁, gc₁, zero₁, count₁]; exact inv.counting }

theorem freeing_header (inv : Freeing .removeCycles outside contents kept (p :: busy) owners pending rt)
    (cell : rt.heap p = some o) (value : valued contents p = true) (disowned : p ∉ owners)
    (made : rt' = { (rt.listDel p).set p (some { o with content := .header o.content.gcObjType }) with
      gcZeroRefCountList := (rt.listDel p).gcZeroRefCountList ++ [p] }) :
    Freeing .removeCycles outside contents kept busy owners pending rt' ∧
      Shrinks owners owners rt rt' := by
  have contents₁ : ∀ q, rt'.contents q =
      if q = p then some (.header o.content.gcObjType) else rt.contents q := by
    intro q
    by_cases equal : q = p <;> simp [made, Runtime.contents, Runtime.set, Runtime.listDel, equal]
  have known : ∀ q, rt'.contents q ≠ none ↔ rt.contents q ≠ none := by
    intro q
    rw [contents₁]
    split
    · next equal => simp [equal, contents_of cell]
    · rfl
  have count₁ : rt'.count = rt.count := by
    funext q
    by_cases equal : q = p <;>
      simp [made, Runtime.count, Runtime.set, Runtime.listDel, equal, cell]
  have marks₁ : rt'.markOf = rt.markOf := by
    funext q
    by_cases equal : q = p <;>
      simp [made, Runtime.markOf, Runtime.set, Runtime.listDel, equal, cell]
  have lists := @mem_listDel rt p inv.distinct
  have gc₁ : ∀ q, q ∈ rt'.gcObjList ↔ q ≠ p ∧ q ∈ rt.gcObjList := by
    rw [made]
    exact fun q => (lists q).1
  have zero₁ : ∀ q, q ∈ rt'.gcZeroRefCountList ↔ (q ≠ p ∧ q ∈ rt.gcZeroRefCountList) ∨ q = p := by
    intro q
    rw [made, List.mem_append, List.mem_singleton, (lists q).2.1]
  have tmp₁ : ∀ q, q ∈ rt'.tmpObjList ↔ q ≠ p ∧ q ∈ rt.tmpObjList := by
    rw [made]
    exact fun q => (lists q).2.2
  have idle : ∀ q, q ≠ p → q ∉ busy → q ∉ p :: busy := fun q other free member =>
    (List.mem_cons.1 member).elim other free
  have fresh := (List.nodup_cons.1 inv.busyNodup).1
  refine ⟨{
    ownersNodup := inv.ownersNodup
    counts := fun q there => by rw [count₁]; exact inv.counts q ((known q).1 there)
    there := fun q positive => (known q).2 (inv.there q positive)
    intact := fun q there => ?_
    types := fun q c there => ?_
    distinct := ?_
    listed := fun q => ?_
    inPhase := by rw [made]; exact inv.inPhase
    busyNodup := (List.nodup_cons.1 inv.busyNodup).2
    busyThere := fun q there => (known q).2 (inv.busyThere q (List.mem_cons_of_mem _ there))
    busyCount := fun q there why => by
      rw [count₁]
      exact inv.busyCount q (List.mem_cons_of_mem _ there) why
    others := fun q there free other => ?_
    gcOwned := fun q there free =>
      inv.gcOwned q ((gc₁ q).1 there).2 (idle q ((gc₁ q).1 there).1 free)
    tmpOwned := fun q there free =>
      inv.tmpOwned q ((tmp₁ q).1 there).2 (idle q ((tmp₁ q).1 there).1 free)
    stays := fun q there => ⟨(inv.stays q there).1, (gc₁ q).2 ⟨?_, (inv.stays q there).2⟩⟩
    marks := fun q there => by
      rw [marks₁]
      exact inv.marks q ((gc₁ q).1 there).2
    removing := fun removing => ⟨fun q there =>
      (inv.removing removing).1 q ((gc₁ q).1 there).2, fun q there valuedQ => ?_⟩
    counting := fun decref => by cases decref }, ?_⟩
  · have other : q ≠ p := by
      rintro rfl
      exact disowned there
    rw [contents₁, if_neg other]
    exact inv.intact q there
  · rw [contents₁] at there
    split at there
    · next equal =>
      cases there
      rw [equal]
      show typeOf contents p = some o.content.gcObjType
      exact inv.types p _ (contents_of cell)
    · exact inv.types q c there
  · have middle : (rt'.gcObjList ++ rt'.gcZeroRefCountList ++ rt'.tmpObjList).Perm
        (p :: ((rt.listDel p).gcObjList ++ (rt.listDel p).gcZeroRefCountList ++
          (rt.listDel p).tmpObjList)) := by
      rw [made]
      show ((rt.listDel p).gcObjList ++ ((rt.listDel p).gcZeroRefCountList ++ [p]) ++
        (rt.listDel p).tmpObjList).Perm _
      rw [← List.append_assoc, List.append_assoc _ [p]]
      exact List.perm_middle
    refine middle.nodup_iff.2 (List.nodup_cons.2 ⟨?_, distinct_listDel inv.distinct⟩)
    rw [List.mem_append, List.mem_append, (lists p).1, (lists p).2.1, (lists p).2.2]
    simp
  · have before := inv.listed q
    rw [List.mem_append, List.mem_append] at before ⊢
    rw [gc₁, zero₁, tmp₁, known]
    by_cases equal : q = p
    · simp [equal, contents_of cell]
    · simpa [equal] using before
  · rw [count₁]
    refine inv.others q ((known q).1 there) (idle q ?_ free) other
    rintro rfl
    rw [value] at other
    cases other
  · rintro rfl
    exact disowned (inv.stays q there).1
  · rcases (zero₁ q).1 there with ⟨-, before⟩ | equal
    · exact (inv.removing removing).2 q before valuedQ
    · rw [equal]
      exact disowned
  · exact ⟨fun _ h => h, fun q => (known q).1, fun q there => ((tmp₁ q).1 there).2⟩

theorem release_header (inv : Freeing phase outside contents kept (p :: busy) owners pending rt)
    (active : phase = .removeCycles ∨ phase = .decref) (value : valued contents p = true)
    (disowned : p ∉ owners) :
    Released phase outside contents kept busy owners pending rt (freeHeader rt p) := by
  obtain ⟨c, here⟩ := Option.ne_none_iff_exists'.1 (inv.busyThere p List.mem_cons_self)
  obtain ⟨o, cell, -⟩ := heap_of_contents here
  have cell' : (rt.listDel p).heap p = some o := cell
  have phase' : (rt.listDel p).gcPhase = phase := inv.inPhase
  by_cases zombie : phase = .removeCycles ∧ o.refCount ≠ 0
  · obtain ⟨rfl, counted⟩ := zombie
    obtain ⟨inv', shrinks⟩ := freeing_header inv cell value disowned rfl
    refine ⟨_, owners, ?_, inv', shrinks⟩
    simp [freeHeader, cell', phase', counted]
  · have uncounted : rt.count p = 0 := by
      rcases active with rfl | decref
      · rw [count_of cell]
        by_contra counted
        exact zombie ⟨rfl, counted⟩
      · exact inv.busyCount p List.mem_cons_self (.inl decref)
    obtain ⟨rt', freed, inv', shrinks⟩ := freeing_leave inv uncounted disowned
    refine ⟨rt', owners, ?_, inv', shrinks⟩
    simp only [freeHeader, cell', Option.bind_eq_bind, Option.bind_some, phase', if_neg zombie]
    exact freed

theorem inspected_targets (data : ClassData) : ∀ q ∈ data.inspected, q ∈ targets data.finalizer := by
  cases data with
  | typedArray buffer => simp [ClassData.inspected, ClassData.finalizer]
  | mapIterator obj => simp [ClassData.inspected, ClassData.finalizer]
  | _ => simp [ClassData.inspected]

theorem inspect_some {qs : List Addr} (there : ∀ q ∈ qs, rt.contents q ≠ none) :
    ∃ answers, qs.mapM (jsIsLiveObject rt) = some answers := by
  induction qs with
  | nil => exact ⟨[], rfl⟩
  | cons q rest ih =>
    obtain ⟨c, here⟩ := Option.ne_none_iff_exists'.1 (there q List.mem_cons_self)
    obtain ⟨o, cell, -⟩ := heap_of_contents here
    obtain ⟨answers, later⟩ := ih fun q' m => there q' (List.mem_cons_of_mem _ m)
    exact ⟨(!o.freeMark) :: answers, by simp [jsIsLiveObject, cell, later]⟩

variable (active : phase = .removeCycles ∨ phase = .decref) (typed : WellTyped contents)
  (keptNodup : kept.Nodup)
  (supported : ∀ p ∈ kept, 0 < outside p + inward (refsOf contents) kept p)

theorem phase_active (active : phase = .removeCycles ∨ phase = .decref) : phase ≠ .none := by
  rcases active with rfl | rfl <;> exact GCPhase.noConfusion

theorem freeing_open (inv : Freeing phase outside contents kept busy owners pending rt)
    (cell : rt.heap p = some o) (member : p ∈ owners) (idle : p ∉ busy) (leaves : p ∉ kept)
    (uncounted : phase = .decref ∨ valued contents p = false → rt.count p = 0) :
    contents p = some o.content ∧ Freeing phase outside contents kept (p :: busy) (owners.erase p)
      (targets o.content.releases ++ pending) rt := by
  have whole : contents p = some o.content := by
    rw [← (inv.intact p member).2]
    exact contents_of cell
  have children : refsOf contents p = o.content.children := by simp [refsOf, whole]
  have opened := freeing_disown (freeing_start inv idle (inv.intact p member).1 uncounted) member
    List.mem_cons_self leaves
  rw [children] at opened
  exact ⟨whole, freeing_perm ((releases_children o.content).symm.append_right pending) opened⟩

include active typed keptNodup supported

theorem release_object (inv : Freeing phase outside contents kept busy owners pending rt)
    (type : typeOf contents p = some .jsObject) (member : p ∈ owners) (idle : p ∉ busy)
    (leaves : p ∉ kept) (uncounted : phase = .decref → rt.count p = 0) :
    Released phase outside contents kept busy (owners.erase p) pending rt (freeObject rt p) := by
  have value : valued contents p = true := by simp [valued, type, GCObjType.isValue]
  obtain ⟨c, here⟩ := Option.ne_none_iff_exists'.1 (inv.intact p member).1
  obtain ⟨o, cell, -⟩ := heap_of_contents here
  obtain ⟨rt₀, made⟩ : ∃ rt₀, rt₀ = rt.set p (some { o with freeMark := true }) := ⟨_, rfl⟩
  have cell₀ : rt₀.heap p = some { o with freeMark := true } := by
    rw [made]
    exact Function.update_self ..
  have inv₀ : Freeing phase outside contents kept busy owners pending rt₀ := by
    rw [made]
    exact freeing_freeMark cell inv
  have none₀ : phase = .decref ∨ valued contents p = false → rt₀.count p = 0 := by
    rintro (decref | other)
    · rw [count_of cell₀]
      show o.refCount = 0
      rw [← count_of cell]
      exact uncounted decref
    · rw [value] at other
      cases other
  obtain ⟨whole, opened⟩ := freeing_open inv₀ cell₀ member idle leaves none₀
  obtain ⟨sh, props, data, shaped⟩ : ∃ sh props data, o.content = .jsObject sh props data := by
    have same : o.content.gcObjType = .jsObject := by simpa [typeOf, whole] using type
    cases held : o.content with
    | jsObject sh props data => exact ⟨sh, props, data, rfl⟩
    | header t => exact absurd (whole.trans (congrArg some held)) (typed.whole p t)
    | _ =>
      rw [held] at same
      cases same
  have pointed := typed.typed p _ whole
  replace pointed : ∀ ptr ∈ props.flatMap JSProperty.free ++ .leaf (.shape sh) :: data.finalizer,
      ptr.Typed contents := by
    intro ptr among
    refine pointed ptr ?_
    show ptr ∈ o.content.releases
    rw [shaped]
    exact among
  replace opened : Freeing phase outside contents kept (p :: busy) (owners.erase p)
      (targets (props.flatMap JSProperty.free) ++ (sh :: (targets data.finalizer ++ pending))) rt₀ := by
    have before := opened
    simp only [shaped, Content.releases, targets_append, targets_cons, target_shape,
      Option.toList_some, List.append_assoc, List.cons_append] at before
    exact before
  have live := phase_active active
  obtain ⟨rt₁, owners₁, freedProps, inv₁, shrinks₁⟩ := release_pointers live typed keptNodup supported
    (fun ptr m => pointed ptr (List.mem_append_left _ m)) opened
  obtain ⟨rt₂, owners₂, freedShape, inv₂, shrinks₂⟩ := release_shape live typed keptNodup supported
    (pointed (.leaf (.shape sh)) (by simp)) inv₁
  have asked : ∀ q ∈ data.inspected, rt₂.contents q ≠ none := by
    intro q among
    refine inv₂.there q ?_
    have counted : 0 < (targets data.finalizer ++ pending).count q :=
      List.count_pos_iff.2 (List.mem_append_left _ (inspected_targets data q among))
    omega
  obtain ⟨answers, inspected⟩ := inspect_some asked
  obtain ⟨rt₃, owners₃, finalized, inv₃, shrinks₃⟩ := release_pointers live typed keptNodup supported
    (fun ptr m => pointed ptr (List.mem_append_right _ (List.mem_cons_of_mem _ m))) inv₂
  have inside := (shrinks₁.trans shrinks₂).trans shrinks₃
  have disowned : p ∉ owners₃ := fun there =>
    inv.ownersNodup.not_mem_erase (inside.owners p there)
  obtain ⟨rt₄, owners₄, ended, inv₄, shrinks₄⟩ := release_header inv₃ active value disowned
  refine ⟨rt₄, owners₄, ?_, inv₄, ?_⟩
  · simp only [freeObject, cell, Option.bind_eq_bind, Option.bind_some, shaped]
    rw [← shaped, ← made]
    simp only [freedProps, freedShape, inspected, finalized, Option.bind_some]
    exact ended
  · have all := inside.trans shrinks₄
    refine ⟨all.owners, fun q there => ?_, fun q there => ?_⟩
    · have before := all.heap q there
      rw [made, contents_freeMark cell] at before
      exact before
    · have before := all.tmp q there
      rw [made] at before
      exact before

theorem release_functionBytecode
    (inv : Freeing phase outside contents kept busy owners pending rt)
    (type : typeOf contents p = some .functionBytecode) (member : p ∈ owners) (idle : p ∉ busy)
    (leaves : p ∉ kept) (uncounted : phase = .decref → rt.count p = 0) :
    Released phase outside contents kept busy (owners.erase p) pending rt
      (freeFunctionBytecode rt p) := by
  have value : valued contents p = true := by simp [valued, type, GCObjType.isValue]
  obtain ⟨c, here⟩ := Option.ne_none_iff_exists'.1 (inv.intact p member).1
  obtain ⟨o, cell, -⟩ := heap_of_contents here
  have none₀ : phase = .decref ∨ valued contents p = false → rt.count p = 0 := by
    rintro (decref | other)
    · exact uncounted decref
    · rw [value] at other
      cases other
  obtain ⟨whole, opened⟩ := freeing_open inv cell member idle leaves none₀
  obtain ⟨cpool, realm, shaped⟩ : ∃ cpool realm, o.content = .functionBytecode cpool realm := by
    have same : o.content.gcObjType = .functionBytecode := by simpa [typeOf, whole] using type
    cases held : o.content with
    | functionBytecode cpool realm => exact ⟨cpool, realm, rfl⟩
    | header t => exact absurd (whole.trans (congrArg some held)) (typed.whole p t)
    | _ =>
      rw [held] at same
      cases same
  have pointed := typed.typed p _ whole
  rw [shaped] at pointed opened
  have live := phase_active active
  obtain ⟨rt₁, owners₁, freed, inv₁, shrinks₁⟩ := release_pointers live typed keptNodup supported
    pointed opened
  have disowned : p ∉ owners₁ := fun there =>
    inv.ownersNodup.not_mem_erase (shrinks₁.owners p there)
  obtain ⟨rt₂, owners₂, ended, inv₂, shrinks₂⟩ := release_header inv₁ active value disowned
  refine ⟨rt₂, owners₂, ?_, inv₂, shrinks₁.trans shrinks₂⟩
  rw [Content.releases, freePointers_append] at freed
  simp only [freeFunctionBytecode, cell, Option.bind_eq_bind, Option.bind_some, shaped]
  rw [← Option.bind_assoc, freed, Option.bind_some]
  exact ended

theorem release_gcObject (inv : Freeing phase outside contents kept busy owners pending rt)
    (value : valued contents p = true) (member : p ∈ owners) (idle : p ∉ busy)
    (leaves : p ∉ kept) (uncounted : phase = .decref → rt.count p = 0) :
    Released phase outside contents kept busy (owners.erase p) pending rt (freeGCObject rt p) := by
  obtain ⟨c, here⟩ := Option.ne_none_iff_exists'.1 (inv.intact p member).1
  obtain ⟨o, cell, -⟩ := heap_of_contents here
  have type := inv.types p _ (contents_of cell)
  rw [valued, type, Option.map_some, Option.getD_some] at value
  cases kind : o.content.gcObjType with
  | jsObject =>
    rw [kind] at type
    obtain ⟨rt', owners', freed, inv', shrinks⟩ :=
      release_object active typed keptNodup supported inv type member idle leaves uncounted
    refine ⟨rt', owners', ?_, inv', shrinks⟩
    simp only [freeGCObject, cell, Option.bind_eq_bind, Option.bind_some, kind, freed]
  | functionBytecode =>
    rw [kind] at type
    obtain ⟨rt', owners', freed, inv', shrinks⟩ :=
      release_functionBytecode active typed keptNodup supported inv type member idle leaves uncounted
    refine ⟨rt', owners', ?_, inv', shrinks⟩
    simp only [freeGCObject, cell, Option.bind_eq_bind, Option.bind_some, kind, freed]
  | _ =>
    rw [kind] at value
    cases value

end Objects
end QuickJSBridge.Collector
