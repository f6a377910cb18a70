import QuickJSBridge.CycleRemoval

/- What the memory manager guarantees. A collection keeps exactly what is reached from outside,
   releasing a value frees nothing that still is, and in no run of the two with allocations
   and writes does an assertion fail or is freed memory touched. -/
namespace QuickJSBridge.Collector
open CountedGraphs

section Removal
variable {outside : Addr → Nat} {contents : Addr → Option Content} {kept owners : List Addr}
  {rt rt' : Runtime} {p : Addr}

/-- Shapes, variables, contexts and async functions wait until the objects that hold them have
    been freed. -/
theorem freeing_shelve (inv : Freeing .removeCycles outside contents kept [] owners [] rt)
    (here : p ∈ rt.tmpObjList) (other : valued contents p = false)
    (made : rt' = { rt.listDel p with gcZeroRefCountList := (rt.listDel p).gcZeroRefCountList ++ [p] }) :
    Freeing .removeCycles outside contents kept [] owners [] rt' := by
  have contents₁ : rt'.contents = rt.contents := by rw [made]; rfl
  have count₁ : rt'.count = rt.count := by rw [made]; rfl
  have marks₁ : rt'.markOf = rt.markOf := by rw [made]; rfl
  have lists := @mem_listDel rt p inv.distinct
  have gc₁ : ∀ q, q ∈ rt'.gcObjList ↔ q ≠ p ∧ q ∈ rt.gcObjList := by
    rw [made]
    exact fun q => (lists q).1
  have zero₁ : ∀ q, q ∈ rt'.gcZeroRefCountList ↔ (q ≠ p ∧ q ∈ rt.gcZeroRefCountList) ∨ q = p := by
    intro q
    rw [made, List.mem_append, List.mem_singleton, (lists q).2.1]
  have tmp₁ : ∀ q, q ∈ rt'.tmpObjList ↔ q ≠ p ∧ q ∈ rt.tmpObjList := by
    rw [made]
    exact fun q => (lists q).2.2
  have elsewhere : p ∉ rt.gcObjList := fun there =>
    (List.nodup_append.1 inv.distinct).2.2 p (List.mem_append_left _ there) p here rfl
  refine { inv with
    counts := by rw [contents₁, count₁]; exact inv.counts
    there := by rw [contents₁]; exact inv.there
    intact := by rw [contents₁]; exact inv.intact
    types := by rw [contents₁]; exact inv.types
    distinct := ?_
    listed := fun q => ?_
    inPhase := by rw [made]; exact inv.inPhase
    busyThere := by rw [contents₁]; exact inv.busyThere
    busyCount := by rw [count₁]; exact inv.busyCount
    others := by rw [contents₁, count₁]; exact inv.others
    gcOwned := fun q there => inv.gcOwned q ((gc₁ q).1 there).2
    tmpOwned := fun q there => inv.tmpOwned q ((tmp₁ q).1 there).2
    stays := fun q there => ⟨(inv.stays q there).1, (gc₁ q).2 ⟨?_, (inv.stays q there).2⟩⟩
    marks := fun q there => by rw [marks₁]; exact inv.marks q ((gc₁ q).1 there).2
    removing := fun removing => ⟨fun q there => (inv.removing removing).1 q ((gc₁ q).1 there).2,
      fun q there value => ?_⟩
    counting := fun decref => by cases decref }
  · have middle : (rt'.gcObjList ++ rt'.gcZeroRefCountList ++ rt'.tmpObjList).Perm
        (p :: ((rt.listDel p).gcObjList ++ (rt.listDel p).gcZeroRefCountList ++
          (rt.listDel p).tmpObjList)) := by
      rw [made]
      show ((rt.listDel p).gcObjList ++ ((rt.listDel p).gcZeroRefCountList ++ [p]) ++
        (rt.listDel p).tmpObjList).Perm _
      rw [← List.append_assoc, List.append_assoc _ [p]]
      exact List.perm_middle
    refine middle.nodup_iff.2 (List.nodup_cons.2 ⟨?_, distinct_listDel inv.distinct⟩)
    rw [List.mem_append, List.mem_append, (lists p).1, (lists p).2.1, (lists p).2.2]
    simp
  · have before := inv.listed q
    rw [List.mem_append, List.mem_append] at before ⊢
    rw [gc₁, zero₁, tmp₁, contents₁]
    by_cases equal : q = p
    · subst equal
      simp [← before, here]
    · simpa [equal] using before
  · rintro rfl
    exact elsewhere (inv.stays q there).2
  · rcases (zero₁ q).1 there with ⟨-, before⟩ | equal
    · exact (inv.removing removing).2 q before value
    · rw [equal, other] at value
      cases value

variable (typed : WellTyped contents) (keptNodup : kept.Nodup)
  (supported : ∀ p ∈ kept, 0 < outside p + inward (refsOf contents) kept p)
include typed keptNodup supported

theorem removal_loop {fuel : Nat} (enough : rt.tmpObjList.length ≤ fuel)
    (inv : Freeing .removeCycles outside contents kept [] owners [] rt) :
    ∃ rt' owners', gcFreeLoop fuel rt = some rt' ∧ rt'.tmpObjList = [] ∧
      Freeing .removeCycles outside contents kept [] owners' [] rt' := by
  induction fuel generalizing owners rt with
  | zero =>
    have none := List.eq_nil_of_length_eq_zero (Nat.le_zero.1 enough)
    refine ⟨rt, owners, ?_, none, inv⟩
    unfold gcFreeLoop
    rw [none]
  | succ fuel ih =>
    cases first : rt.tmpObjList with
    | nil =>
      refine ⟨rt, owners, ?_, first, inv⟩
      unfold gcFreeLoop
      rw [first]
    | cons p rest =>
      have here : p ∈ rt.tmpObjList := by simp [first]
      have tmpNodup := (List.nodup_append.1 inv.distinct).2.1
      have member := inv.tmpOwned p here List.not_mem_nil
      obtain ⟨c, known⟩ := Option.ne_none_iff_exists'.1 (inv.intact p member).1
      obtain ⟨o, cell, -⟩ := heap_of_contents known
      have type := inv.types p _ (contents_of cell)
      have leaves : p ∉ kept := fun there =>
        (List.nodup_append.1 inv.distinct).2.2 p (List.mem_append_left _ (inv.stays p there).2)
          p here rfl
      -- what is left of the list is shorter
      have shorter : ∀ rt₁ : Runtime, rt₁.tmpObjList.Nodup → (∀ q ∈ rt₁.tmpObjList, q ∈ rt.tmpObjList) →
          p ∉ rt₁.tmpObjList → rt₁.tmpObjList.length ≤ fuel := by
        intro rt₁ nodup inside gone
        have subset : rt₁.tmpObjList ⊆ rest := fun q there => by
          have before := inside q there
          rw [first, List.mem_cons] at before
          refine before.resolve_left ?_
          rintro rfl
          exact gone there
        have sizes := (nodup.subperm subset).length_le
        rw [first, List.length_cons] at enough
        omega
      by_cases value : valued contents p = true
      · obtain ⟨rt₁, owners₁, freed, inv₁, shrinks⟩ := release_gcObject (.inl rfl) typed keptNodup
          supported inv value member List.not_mem_nil leaves (fun decref => by cases decref)
        have gone : p ∉ rt₁.tmpObjList := fun there =>
          inv.ownersNodup.not_mem_erase (shrinks.owners p (inv₁.tmpOwned p there List.not_mem_nil))
        obtain ⟨rt₂, owners₂, looped, none, inv₂⟩ :=
          ih (shorter rt₁ (List.nodup_append.1 inv₁.distinct).2.1 shrinks.tmp gone) inv₁
        refine ⟨rt₂, owners₂, ?_, none, inv₂⟩
        rw [valued, type, Option.map_some, Option.getD_some] at value
        unfold gcFreeLoop
        rw [first]
        simp only [cell, Option.bind_eq_bind, Option.bind_some]
        cases kind : o.content.gcObjType with
        | jsObject => simp only [freed, Option.bind_some, looped]
        | functionBytecode => simp only [freed, Option.bind_some, looped]
        | _ =>
          rw [kind] at value
          cases value
      · have other : valued contents p = false := by simpa using value
        obtain ⟨rt₁, made⟩ : ∃ rt₁, rt₁ = { rt.listDel p with
            gcZeroRefCountList := (rt.listDel p).gcZeroRefCountList ++ [p] } := ⟨_, rfl⟩
        have inv₁ := freeing_shelve inv here other made
        have list₁ : rt₁.tmpObjList = rt.tmpObjList.erase p := by rw [made]; rfl
        have gone : p ∉ rt₁.tmpObjList := by
          rw [list₁]
          exact tmpNodup.not_mem_erase
        have inside : ∀ q ∈ rt₁.tmpObjList, q ∈ rt.tmpObjList := by
          rw [list₁]
          exact fun q there => List.mem_of_mem_erase there
        obtain ⟨rt₂, owners₂, looped, none, inv₂⟩ :=
          ih (shorter rt₁ (List.nodup_append.1 inv₁.distinct).2.1 inside gone) inv₁
        refine ⟨rt₂, owners₂, ?_, none, inv₂⟩
        rw [valued, type, Option.map_some, Option.getD_some] at other
        unfold gcFreeLoop
        rw [first]
        simp only [cell, Option.bind_eq_bind, Option.bind_some]
        cases kind : o.content.gcObjType with
        | jsObject =>
          rw [kind] at other
          cases other
        | functionBytecode =>
          rw [kind] at other
          cases other
        | _ =>
          simp only [← made]
          exact looped

end Removal

section Collection
variable {outside : Addr → Nat} {contents : Addr → Option Content} {rt rt' : Runtime} {p q : Addr}

def rank (contents : Addr → Option Content) (p : Addr) : Nat :=
  if typeOf contents p = some .jsContext then 1 else 0

theorem rank_of_children (typed : WellTyped contents) (from_ : valued contents p = false)
    (to_ : valued contents q = false) (edge : q ∈ refsOf contents p) :
    rank contents q < rank contents p := by
  cases here : contents p with
  | none => simp [refsOf, here] at edge
  | some c =>
    have released : q ∈ targets c.releases := by
      rw [(releases_children c).mem_iff]
      simpa [refsOf, here] using edge
    obtain ⟨ptr, among, target⟩ := List.mem_filterMap.1 released
    have pointed := typed.typed p c here ptr among
    -- a pointer of a value leads to an object or a function
    have notValue : ∀ v, ptr ≠ .value v := by
      rintro v rfl
      have value := pointed q target
      rw [value] at to_
      cases to_
    have onlyContext : ∀ vs : List JSValue, c.releases ≠ vs.map .value := by
      intro vs same
      rw [same] at among
      obtain ⟨v, -, equal⟩ := List.mem_map.1 among
      exact notValue v equal.symm
    cases c with
    | jsObject sh props data => simp [valued, typeOf, here, Content.gcObjType, GCObjType.isValue] at from_
    | functionBytecode cpool realm =>
      simp [valued, typeOf, here, Content.gcObjType, GCObjType.isValue] at from_
    | shape proto => exact absurd rfl (onlyContext (objects [proto]))
    | varRef value => exact absurd rfl (onlyContext [value])
    | asyncFunction funcState resolvingFuncs => exact absurd rfl (onlyContext _)
    | header t => exact absurd here (typed.whole p t)
    | jsContext modules values arrayShape =>
      obtain ⟨l, -, rfl⟩ := List.mem_map.1 among
      have top : rank contents p = 1 := by simp [rank, typeOf, here, Content.gcObjType]
      have type : typeOf contents q ≠ some .jsContext := by
        cases l with
        | value v => exact absurd rfl (notValue v)
        | shape r =>
          cases target
          rw [show typeOf contents q = some .shape from pointed]
          simp
        | varRef r =>
          cases target
          rw [show typeOf contents q = some .varRef from pointed]
          simp
      rw [top, rank, if_neg type]
      exact Nat.zero_lt_one

theorem headers_left {kept owners : List Addr} (typed : WellTyped contents)
    (held : ∀ p, 0 < outside p → p ∈ kept) (closed : ∀ p ∈ kept, ∀ q ∈ refsOf contents p, q ∈ kept)
    (none : rt.tmpObjList = [])
    (inv : Freeing .removeCycles outside contents kept [] owners [] rt) :
    ∀ p ∈ rt.gcZeroRefCountList, valued contents p = true := by
  have split : ∀ q ∈ owners, q ∈ kept ∨ q ∈ rt.gcZeroRefCountList := by
    intro q member
    have somewhere := (inv.listed q).2 (inv.intact q member).1
    rw [none, List.append_nil, List.mem_append] at somewhere
    exact somewhere.imp_left ((inv.removing rfl).1 q)
  have apart : ∀ q ∈ rt.gcZeroRefCountList, q ∉ kept := by
    intro q there stays
    have front := (List.nodup_append.1 inv.distinct).1
    exact (List.nodup_append.1 front).2.2 q (inv.stays q stays).2 q there rfl
  have empty : rt.gcZeroRefCountList.filter (fun p => !valued contents p) = [] := by
    refine nil_of_rank (rank contents) fun p there => ?_
    rw [List.mem_filter, Bool.not_eq_true'] at there
    obtain ⟨waits, other⟩ := there
    have known : rt.contents p ≠ Option.none :=
      (inv.listed p).1 (List.mem_append_left _ (List.mem_append_right _ waits))
    obtain ⟨-, counted⟩ := inv.others p known List.not_mem_nil other
    have tallied := inv.counts p known
    have unheld : outside p = 0 := Nat.eq_zero_of_not_pos fun positive =>
      apart p waits (held p positive)
    rw [unheld, List.count_nil] at tallied
    obtain ⟨q, owner, edge⟩ := inward_pos_iff.1 (show 0 < inward (refsOf contents) owners p by omega)
    have waiting : q ∈ rt.gcZeroRefCountList :=
      (split q owner).resolve_left fun stays => apart p waits (closed q stays p edge)
    have other' : valued contents q = false := by
      by_contra value
      exact (inv.removing rfl).2 q waiting (by simpa using value) owner
    exact ⟨q, List.mem_filter.2 ⟨waiting, by simp [other']⟩, rank_of_children typed other' other edge⟩
  intro p there
  by_contra other
  have member : p ∈ rt.gcZeroRefCountList.filter (fun p => !valued contents p) :=
    List.mem_filter.2 ⟨there, by simpa using other⟩
  rw [empty] at member
  cases member

theorem free_headers {zs : List Addr} (nodup : zs.Nodup)
    (ready : ∀ p ∈ zs, ∃ o, rt.heap p = some o ∧ o.content.gcObjType.isValue = true) :
    zs.foldlM gcFreeHeader rt = some { rt with heap := fun q => if q ∈ zs then none else rt.heap q } := by
  induction zs generalizing rt with
  | nil => simp
  | cons z rest ih =>
    rw [List.nodup_cons] at nodup
    obtain ⟨o, cell, value⟩ := ready z List.mem_cons_self
    have kind : o.content.gcObjType = .jsObject ∨ o.content.gcObjType = .functionBytecode := by
      cases same : o.content.gcObjType <;> rw [same] at value <;> simp_all [GCObjType.isValue]
    have step : gcFreeHeader rt z = some (rt.set z none) := by
      simp [gcFreeHeader, cell, guard, kind, Runtime.jsFreeRT]
    have later : ∀ p ∈ rest, ∃ o, (rt.set z none).heap p = some o ∧
        o.content.gcObjType.isValue = true := by
      intro p there
      have other : p ≠ z := by
        rintro rfl
        exact nodup.1 there
      obtain ⟨o, cell, value⟩ := ready p (List.mem_cons_of_mem _ there)
      exact ⟨o, by simpa [Runtime.set, other] using cell, value⟩
    rw [List.foldlM_cons, step, Option.bind_eq_bind, Option.bind_some, ih nodup.2 later]
    congr 1
    simp only [Runtime.set, Runtime.mk.injEq, and_self, and_true]
    funext q
    by_cases equal : q = z
    · simp [equal]
    · simp [equal]

theorem supported_of_reached (reached : ReachedFrom outside rt p) :
    0 < outside p ∨ ∃ q, ReachedFrom outside rt q ∧ p ∈ refsOf rt.contents q := by
  cases reached with
  | root here => exact .inl here
  | next there edge => exact .inr ⟨_, there, edge⟩

theorem freeing_of_scanned {rt' : Runtime} (balanced : Balanced outside rt)
    (scanned : Scanned outside rt rt') :
    Freeing .removeCycles outside rt.contents rt'.gcObjList [] (rt'.gcObjList ++ rt'.tmpObjList) []
      { rt' with gcPhase := .removeCycles } := by
  have nodup := scanned.split.nodup_iff.2 balanced.nodup
  have inside : ∀ q ∈ rt'.gcObjList ++ rt'.tmpObjList, q ∈ rt.gcObjList := fun q there =>
    scanned.split.mem_iff.1 there
  have known : ∀ q, rt'.contents q ≠ none ↔ q ∈ rt'.gcObjList ++ rt'.tmpObjList := by
    intro q
    rw [scanned.same, ← balanced.listed q, scanned.split.mem_iff]
  have tallied : ∀ q, rt'.contents q ≠ none → rt'.count q =
      outside q + inward (refsOf rt.contents) (rt'.gcObjList ++ rt'.tmpObjList) q := by
    intro q there
    have member := inside q ((known q).1 there)
    rw [scanned.counts q member, balanced.counts q member, inward_perm scanned.split]
  exact {
    ownersNodup := nodup
    counts := fun q there => tallied q there
    there := fun q positive => by
      show rt'.contents q ≠ none
      rw [known, scanned.split.mem_iff]
      rw [List.count_nil, inward_perm scanned.split] at positive
      rcases Nat.eq_zero_or_pos (outside q) with unheld | held
      · obtain ⟨r, owner, edge⟩ := inward_pos_iff.1
          (show 0 < inward (refsOf rt.contents) rt.gcObjList q by omega)
        exact balanced.closed r owner q edge
      · exact balanced.held q held
    intact := fun q there => ⟨(known q).2 there, congrFun scanned.same q⟩
    types := fun q c there => by
      have original : rt.contents q = some c := by
        rw [← scanned.same]
        exact there
      simp [typeOf, original]
    distinct := by
      show (rt'.gcObjList ++ rt'.gcZeroRefCountList ++ rt'.tmpObjList).Nodup
      rw [scanned.zero, List.append_nil]
      exact nodup
    listed := fun q => by
      show q ∈ rt'.gcObjList ++ rt'.gcZeroRefCountList ++ rt'.tmpObjList ↔ rt'.contents q ≠ none
      rw [scanned.zero, List.append_nil, known]
    inPhase := rfl
    busyNodup := .nil
    busyThere := fun q there => by cases there
    busyCount := fun q there => by cases there
    others := fun q there _ _ => by
      have listed := (known q).1 there
      refine ⟨listed, ?_⟩
      show 0 < rt'.count q
      rw [scanned.counts q (inside q listed)]
      exact balanced.positive q (inside q listed)
    gcOwned := fun q there _ => List.mem_append_left _ there
    tmpOwned := fun q there _ => List.mem_append_right _ there
    stays := fun q there => ⟨List.mem_append_left _ there, there⟩
    marks := scanned.marks
    removing := fun _ => ⟨fun q there => there, fun q there => by
      replace there : q ∈ rt'.gcZeroRefCountList := there
      rw [scanned.zero] at there
      cases there⟩
    counting := fun decref => by cases decref }

theorem balanced_of_owned {owners : List Addr} (nodup : rt.gcObjList.Nodup) (ownersNodup : owners.Nodup)
    (owned : ∀ q, q ∈ owners ↔ q ∈ rt.gcObjList)
    (same : ∀ q, rt.contents q = if q ∈ rt.gcObjList then contents q else none)
    (whole : ∀ q ∈ rt.gcObjList, contents q ≠ none)
    (counts : ∀ q ∈ rt.gcObjList, rt.count q = outside q + inward (refsOf contents) owners q)
    (there : ∀ q, 0 < outside q + inward (refsOf contents) owners q → q ∈ rt.gcObjList)
    (positive : ∀ q ∈ rt.gcObjList, 0 < rt.count q) (marks : ∀ q ∈ rt.gcObjList, rt.markOf q = false)
    (zero : rt.gcZeroRefCountList = []) (tmp : rt.tmpObjList = []) (phase : rt.gcPhase = .none) :
    Balanced outside rt := by
  have refs : ∀ q ∈ rt.gcObjList, refsOf rt.contents q = refsOf contents q := by
    intro q listed
    rw [refsOf, same q, if_pos listed, refsOf]
  have perm : owners.Perm rt.gcObjList := (List.perm_ext_iff_of_nodup ownersNodup nodup).2 owned
  refine ⟨nodup, fun q => ?_, fun p listed q edge => ?_, fun q held => there q (by omega),
    fun q listed => ?_, positive, marks, zero, tmp, phase⟩
  · rw [same q]
    by_cases listed : q ∈ rt.gcObjList
    · simp [listed, whole q listed]
    · simp [listed]
  · rw [refs p listed] at edge
    have referred := inward_pos ((owned p).2 listed) edge
    exact there q (by omega)
  · rw [counts q listed, inward_perm perm, inward_congr refs]

/-- `JS_RunGC` keeps what is reached from outside as it was and frees everything else. -/
structure Collected (outside : Addr → Nat) (rt rt' : Runtime) : Prop where
  balanced : Balanced outside rt'
  reached : ∀ p, ReachedFrom outside rt p → rt'.contents p = rt.contents p ∧ rt'.contents p ≠ none
  unreached : ∀ p, ¬ ReachedFrom outside rt p → rt'.contents p = none

theorem collected (balanced : Balanced outside rt) (typed : WellTyped rt.contents) :
    ∃ rt', jsRunGC rt = some rt' ∧ Collected outside rt rt' := by
  obtain ⟨rt₁, rt₂, decref, scan, scanned⟩ := Collector.scanned balanced
  have inside : ∀ q ∈ rt₂.gcObjList, q ∈ rt.gcObjList := fun q there =>
    scanned.split.mem_iff.1 (List.mem_append_left _ there)
  have keptNodup := (List.nodup_append.1 (scanned.split.nodup_iff.2 balanced.nodup)).1
  have closed : ∀ p ∈ rt₂.gcObjList, ∀ q ∈ refsOf rt.contents p, q ∈ rt₂.gcObjList :=
    fun p there q edge => (scanned.reached q).2 (.next ((scanned.reached p).1 there) edge)
  have held : ∀ p, 0 < outside p → p ∈ rt₂.gcObjList := fun p positive =>
    (scanned.reached p).2 (.root positive)
  have supported : ∀ p ∈ rt₂.gcObjList,
      0 < outside p + inward (refsOf rt.contents) rt₂.gcObjList p := by
    intro p there
    rcases supported_of_reached ((scanned.reached p).1 there) with root | ⟨q, reached, edge⟩
    · omega
    · have referred := inward_pos ((scanned.reached q).2 reached) edge
      omega
  obtain ⟨rt₃, owners, looped, none, inv⟩ := removal_loop typed keptNodup supported (Nat.le_refl _)
    (freeing_of_scanned balanced scanned)
  have headers := headers_left typed held closed none inv
  obtain ⟨front, -, -⟩ := List.nodup_append.1 inv.distinct
  obtain ⟨gcNodup, zeroNodup, disjoint⟩ := List.nodup_append.1 front
  have ready : ∀ p ∈ rt₃.gcZeroRefCountList, ∃ o,
      ({ rt₃ with gcPhase := .none } : Runtime).heap p = some o ∧
        o.content.gcObjType.isValue = true := by
    intro p there
    obtain ⟨c, here⟩ := Option.ne_none_iff_exists'.1
      ((inv.listed p).1 (List.mem_append_left _ (List.mem_append_right _ there)))
    obtain ⟨o, cell, -⟩ := heap_of_contents here
    have value := headers p there
    rw [valued, inv.types p _ (contents_of cell)] at value
    exact ⟨o, cell, value⟩
  have freed := free_headers zeroNodup ready
  obtain ⟨rt', made⟩ : ∃ rt' : Runtime, rt' = { rt₃ with
      gcPhase := .none
      heap := fun q => if q ∈ rt₃.gcZeroRefCountList then Option.none else rt₃.heap q
      gcZeroRefCountList := [] } := ⟨_, rfl⟩
  have list' : rt'.gcObjList = rt₃.gcObjList := by rw [made]
  have gcKept : ∀ q, q ∈ rt'.gcObjList ↔ q ∈ rt₂.gcObjList := by
    rw [list']
    exact fun q => ⟨(inv.removing rfl).1 q, fun there => (inv.stays q there).2⟩
  have owned : ∀ q, q ∈ owners ↔ q ∈ rt'.gcObjList := by
    intro q
    rw [list']
    refine ⟨fun member => ?_, fun there => inv.gcOwned q there List.not_mem_nil⟩
    have somewhere := (inv.listed q).2 (inv.intact q member).1
    rw [none, List.append_nil, List.mem_append] at somewhere
    exact somewhere.resolve_right fun waits => (inv.removing rfl).2 q waits (headers q waits) member
  have cells : ∀ q, rt'.heap q = if q ∈ rt₃.gcZeroRefCountList then Option.none else rt₃.heap q := by
    rw [made]
    exact fun _ => rfl
  have apart : ∀ q ∈ rt'.gcObjList, q ∉ rt₃.gcZeroRefCountList := by
    rw [list']
    exact fun q there waits => disjoint q there q waits rfl
  have stayed : ∀ q ∈ rt'.gcObjList, rt'.heap q = rt₃.heap q := fun q there => by
    rw [cells, if_neg (apart q there)]
  have known : ∀ q ∈ rt'.gcObjList, rt₃.contents q ≠ Option.none := fun q there =>
    (inv.intact q ((owned q).2 there)).1
  have same : ∀ q, rt'.contents q = if q ∈ rt'.gcObjList then rt.contents q else Option.none := by
    intro q
    split
    · next there =>
      rw [← (inv.intact q ((owned q).2 there)).2, Runtime.contents, stayed q there, Runtime.contents]
    · next absent =>
      rw [Runtime.contents, cells]
      split
      · rfl
      · next gone =>
        by_contra there
        have somewhere := (inv.listed q).2 there
        rw [none, List.append_nil, List.mem_append, ← list'] at somewhere
        exact somewhere.elim absent gone
  have whole : ∀ q ∈ rt'.gcObjList, rt.contents q ≠ Option.none := fun q there =>
    (balanced.listed q).1 (inside q ((gcKept q).1 there))
  have counts : ∀ q ∈ rt'.gcObjList,
      rt'.count q = outside q + inward (refsOf rt.contents) owners q := fun q there => by
    rw [Runtime.count, stayed q there]
    exact inv.counts q (known q there)
  have positive : ∀ q ∈ rt'.gcObjList, 0 < rt'.count q := fun q there => by
    have support := supported q ((gcKept q).1 there)
    have within := @inward_subset _ _ (refsOf rt.contents) rt₂.gcObjList owners q keptNodup
      fun r member => (inv.stays r member).1
    rw [counts q there]
    omega
  have referred : ∀ q, 0 < outside q + inward (refsOf rt.contents) owners q → q ∈ rt'.gcObjList := by
    intro q counted
    rw [gcKept]
    rcases Nat.eq_zero_or_pos (outside q) with unheld | root
    · obtain ⟨r, owner, edge⟩ := inward_pos_iff.1
        (show 0 < inward (refsOf rt.contents) owners q by omega)
      exact closed r ((gcKept r).1 ((owned r).1 owner)) q edge
    · exact held q root
  have marks : ∀ q ∈ rt'.gcObjList, rt'.markOf q = false := fun q there => by
    rw [Runtime.markOf, stayed q there]
    exact inv.marks q (list' ▸ there)
  refine ⟨rt', ?_, ?_, fun q reached => ?_, fun q unreached => ?_⟩
  · simp only [jsRunGC, decref, scan, gcFreeCycles, looped, freed, Option.bind_eq_bind,
      Option.bind_some]
    rw [made]
    rfl
  · exact balanced_of_owned (list' ▸ gcNodup) inv.ownersNodup owned same whole counts referred positive
      marks (by rw [made]) (by rw [made]; exact none) (by rw [made])
  · have there := (gcKept q).2 ((scanned.reached q).2 reached)
    rw [same q, if_pos there]
    exact ⟨rfl, whole q there⟩
  · rw [same q, if_neg]
    exact fun there => unreached ((scanned.reached q).1 ((gcKept q).1 there))

end Collection

section Counting
variable {outside : Addr → Nat} {contents : Addr → Option Content} {owners : List Addr}
  {rt rt' : Runtime} {p : Addr}

theorem counting_loop (typed : WellTyped contents) {fuel : Nat}
    (enough : rt.gcObjList.length + rt.gcZeroRefCountList.length ≤ fuel)
    (inv : Freeing .decref outside contents [] [] owners [] rt) :
    ∃ rt' owners', freeZeroLoop fuel rt = some rt' ∧ rt'.gcZeroRefCountList = [] ∧
      Freeing .decref outside contents [] [] owners' [] rt' := by
  induction fuel generalizing owners rt with
  | zero =>
    have none : rt.gcZeroRefCountList = [] := List.eq_nil_of_length_eq_zero (by omega)
    refine ⟨rt, owners, ?_, none, inv⟩
    unfold freeZeroLoop
    rw [none]
  | succ fuel ih =>
    cases first : rt.gcZeroRefCountList with
    | nil =>
      refine ⟨rt, owners, ?_, first, inv⟩
      unfold freeZeroLoop
      rw [first]
    | cons p rest =>
      have here : p ∈ rt.gcZeroRefCountList := by simp [first]
      obtain ⟨tmpNone, -, queued⟩ := inv.counting rfl
      obtain ⟨value, owner, uncounted⟩ := queued p here
      have member := owner List.not_mem_nil
      obtain ⟨c, known⟩ := Option.ne_none_iff_exists'.1 (inv.intact p member).1
      obtain ⟨o, cell, -⟩ := heap_of_contents known
      obtain ⟨rt₁, owners₁, freed, inv₁, shrinks⟩ := release_gcObject (.inr rfl) typed .nil
        (fun q there => by cases there) inv value member List.not_mem_nil List.not_mem_nil
        (fun _ => uncounted)
      obtain ⟨tmpNone₁, -, queued₁⟩ := inv₁.counting rfl
      have gone : p ∉ rt₁.gcObjList ++ rt₁.gcZeroRefCountList := by
        intro there
        have still : p ∈ owners₁ := by
          rcases List.mem_append.1 there with listed | waits
          · exact inv₁.gcOwned p listed List.not_mem_nil
          · exact (queued₁ p waits).2.1 List.not_mem_nil
        exact inv.ownersNodup.not_mem_erase (shrinks.owners p still)
      have fewer : (rt₁.gcObjList ++ rt₁.gcZeroRefCountList).length <
          (rt.gcObjList ++ rt.gcZeroRefCountList).length := by
        have distinct₁ := (List.nodup_append.1 inv₁.distinct).1
        have subset : p :: (rt₁.gcObjList ++ rt₁.gcZeroRefCountList) ⊆
            rt.gcObjList ++ rt.gcZeroRefCountList := by
          intro q there
          rcases List.mem_cons.1 there with rfl | later
          · exact List.mem_append_right _ here
          · have before := (inv.listed q).2
              (shrinks.heap q ((inv₁.listed q).1 (List.mem_append_left _ later)))
            rwa [tmpNone, List.append_nil] at before
        have sizes := ((List.nodup_cons.2 ⟨gone, distinct₁⟩).subperm subset).length_le
        rw [List.length_cons] at sizes
        omega
      rw [List.length_append, List.length_append] at fewer
      obtain ⟨rt₂, owners₂, looped, none, inv₂⟩ := ih (by omega) inv₁
      refine ⟨rt₂, owners₂, ?_, none, inv₂⟩
      unfold freeZeroLoop
      rw [first]
      rw [count_of cell] at uncounted
      simp only [cell, uncounted, guard, if_true, freed, Option.bind_eq_bind, Option.bind_some]
      exact looped

/-- One reference from outside less. -/
def without (outside : Addr → Nat) (p : Addr) (q : Addr) : Nat :=
  if q = p then outside q - 1 else outside q

/-- `JS_FreeValueRT` gives a reference back and frees only what is not reached any more. -/
structure GivenBack (outside : Addr → Nat) (rt rt' : Runtime) : Prop where
  balanced : Balanced outside rt'
  same : ∀ p, rt'.contents p = rt.contents p ∨ rt'.contents p = none
  reached : ∀ p, ReachedFrom outside rt p → rt'.contents p = rt.contents p ∧ rt'.contents p ≠ none

theorem givenBack_of_same (balanced : Balanced outside rt')
    (same : ∀ p, rt'.contents p = rt.contents p ∨ rt'.contents p = none) :
    GivenBack outside rt rt' := by
  refine ⟨balanced, same, fun p reached => ?_⟩
  have there : rt'.contents p ≠ none := by
    refine reached_least (fun q => rt'.contents q ≠ none) ?_ ?_ reached
    · exact fun q root => (balanced.listed q).1 (balanced.held q root)
    · intro q known r edge
      have equal := (same q).resolve_right known
      have edge' : r ∈ refsOf rt'.contents q := by
        rw [refsOf, equal]
        exact edge
      exact (balanced.listed r).1 (balanced.closed q ((balanced.listed q).2 known) r edge')
  exact ⟨(same p).resolve_right there, there⟩

theorem without_total (held : 0 < outside p) (q : Addr) :
    outside q = without outside p q + if q = p then 1 else 0 := by
  unfold without
  split
  · next equal =>
    rw [equal]
    omega
  · rfl

theorem counts_without {rt₁ : Runtime} (balanced : Balanced outside rt) (dropped : Dropped p rt rt₁)
    (held : 0 < outside p) (q : Addr) (there : q ∈ rt.gcObjList) :
    rt₁.count q = without outside p q + inward (refsOf rt.contents) rt.gcObjList q := by
  have before := balanced.counts q there
  have split := without_total held q
  rw [dropped.count]
  by_cases equal : q = p
  · subst equal
    rw [if_pos rfl] at split ⊢
    omega
  · rw [if_neg equal] at split ⊢
    omega

theorem freeing_of_last {rt₁ : Runtime} (balanced : Balanced outside rt) (dropped : Dropped p rt rt₁)
    (held : 0 < outside p) (last : rt.count p = 1) (value : valued rt.contents p = true) :
    Freeing .decref (without outside p) rt.contents [] [] rt.gcObjList []
      { queueZero rt₁ p with gcPhase := .decref } := by
  have member := balanced.held p held
  obtain ⟨rt₂, made⟩ : ∃ rt₂ : Runtime, rt₂ = { queueZero rt₁ p with gcPhase := .decref } := ⟨_, rfl⟩
  have notRemoving : rt₁.gcPhase ≠ .removeCycles := by
    rw [dropped.phase, balanced.phase]
    exact GCPhase.noConfusion
  rw [← made]
  rw [queueZero, if_neg notRemoving] at made
  have contents₂ : rt₂.contents = rt.contents := by
    rw [← dropped.contents, made]
    rfl
  have count₂ : rt₂.count = rt₁.count := by rw [made]; rfl
  have gc₂ : rt₂.gcObjList = rt.gcObjList.erase p := by
    rw [made]
    show rt₁.gcObjList.erase p = _
    rw [dropped.gc]
  have zero₂ : rt₂.gcZeroRefCountList = [p] := by
    rw [made]
    show p :: rt₁.gcZeroRefCountList.erase p = [p]
    rw [dropped.zero, balanced.zero]
    rfl
  have tmp₂ : rt₂.tmpObjList = [] := by
    rw [made]
    show rt₁.tmpObjList.erase p = []
    rw [dropped.tmp, balanced.tmp]
    rfl
  have tallied := fun q there => counts_without balanced dropped held q there
  have moved : (rt₂.gcObjList ++ rt₂.gcZeroRefCountList ++ rt₂.tmpObjList).Perm rt.gcObjList := by
    rw [gc₂, zero₂, tmp₂, List.append_nil]
    exact (List.perm_append_singleton p _).trans (List.perm_cons_erase member).symm
  have listed : ∀ q ∈ rt₂.gcObjList, q ≠ p ∧ q ∈ rt.gcObjList := fun q there => by
    rwa [gc₂, balanced.nodup.mem_erase_iff] at there
  have more : ∀ q ∈ rt.gcObjList, q ≠ p → 0 < rt₁.count q := fun q there other => by
    rw [dropped.count, if_neg other]
    exact balanced.positive q there
  exact {
    ownersNodup := balanced.nodup
    counts := fun q there => by
      rw [contents₂, ← balanced.listed] at there
      rw [count₂, List.count_nil]
      exact tallied q there
    there := fun q positive => by
      rw [contents₂, ← balanced.listed]
      rw [List.count_nil] at positive
      have split := without_total held q
      rcases Nat.eq_zero_or_pos (inward (refsOf rt.contents) rt.gcObjList q) with none | referred
      · exact balanced.held q (by omega)
      · obtain ⟨r, owner, edge⟩ := inward_pos_iff.1 referred
        exact balanced.closed r owner q edge
    intact := fun q there => by
      rw [contents₂]
      exact ⟨(balanced.listed q).1 there, rfl⟩
    types := fun q c there => by
      rw [contents₂] at there
      simp [typeOf, there]
    distinct := moved.nodup_iff.2 balanced.nodup
    listed := fun q => by rw [moved.mem_iff, contents₂, balanced.listed]
    inPhase := by rw [made]
    busyNodup := .nil
    busyThere := fun q there => by cases there
    busyCount := fun q there => by cases there
    others := fun q there _ other => by
      rw [contents₂, ← balanced.listed] at there
      refine ⟨there, ?_⟩
      rw [count₂]
      refine more q there ?_
      rintro rfl
      rw [value] at other
      cases other
    gcOwned := fun q there _ => (listed q there).2
    tmpOwned := fun q there => by
      rw [tmp₂] at there
      cases there
    stays := fun q there => by cases there
    marks := fun q there => by
      have same : rt₂.markOf = rt.markOf := by
        rw [← dropped.marks, made]
        rfl
      rw [same]
      exact balanced.marks q (listed q there).2
    removing := fun removing => by cases removing
    counting := fun _ => ⟨tmp₂, fun q there _ => by
      rw [count₂]
      exact more q (listed q there).2 (listed q there).1, fun q there => by
      rw [zero₂, List.mem_singleton] at there
      subst there
      refine ⟨value, fun _ => member, ?_⟩
      rw [count₂, dropped.count, if_pos rfl, last]⟩ }

theorem givenBack {v : JSValue} (balanced : Balanced outside rt) (typed : WellTyped rt.contents)
    (pointed : (Pointer.value v).Typed rt.contents) (found : gcAddr? v = some p)
    (held : 0 < outside p) :
    ∃ rt', jsFreeValueRT rt v = some rt' ∧ GivenBack (without outside p) rt rt' := by
  have member := balanced.held p held
  have value : valued rt.contents p = true := pointed p found
  obtain ⟨c, here⟩ := Option.ne_none_iff_exists'.1 ((balanced.listed p).1 member)
  obtain ⟨o, cell, -⟩ := heap_of_contents here
  have positive : 0 < o.refCount := by
    rw [← count_of cell]
    exact balanced.positive p member
  obtain ⟨rt₁, made⟩ : ∃ rt₁, rt₁ = rt.set p (some { o with refCount := o.refCount - 1 }) := ⟨_, rfl⟩
  have dropped : Dropped p rt rt₁ := made ▸ dropped_set cell
  by_cases last : o.refCount = 1
  · have lastCount : rt.count p = 1 := (count_of cell).trans last
    have started := freeing_of_last balanced dropped held lastCount value
    obtain ⟨rt₂, owners, looped, none, inv⟩ := counting_loop typed (Nat.le_refl _) started
    obtain ⟨tmpNone, more, -⟩ := inv.counting rfl
    have known : ∀ q, q ∈ rt₂.gcObjList ↔ rt₂.contents q ≠ Option.none := fun q => by
      have before := inv.listed q
      rwa [none, tmpNone, List.append_nil, List.append_nil] at before
    have owned : ∀ q, q ∈ owners ↔ q ∈ rt₂.gcObjList := fun q =>
      ⟨fun owner => (known q).2 (inv.intact q owner).1,
        fun there => inv.gcOwned q there List.not_mem_nil⟩
    have whole : ∀ q ∈ rt₂.gcObjList, rt₂.contents q = rt.contents q ∧ rt.contents q ≠ Option.none := by
      intro q there
      obtain ⟨still, equal⟩ := inv.intact q ((owned q).2 there)
      exact ⟨equal, equal ▸ still⟩
    have same : ∀ q, rt₂.contents q = if q ∈ rt₂.gcObjList then rt.contents q else Option.none := by
      intro q
      split
      · next there => exact (whole q there).1
      · next absent =>
        by_contra there
        exact absent ((known q).2 there)
    refine ⟨{ rt₂ with gcPhase := .none }, ?_, givenBack_of_same ?_ fun q => ?_⟩
    · simp only [jsFreeValueRT, found, decrement_some cell positive, Option.bind_eq_bind,
        Option.bind_some, ← made, balanced.phase, freeZeroRefcount, if_true]
      rw [if_pos (by omega), looped]
      rfl
    · refine balanced_of_owned (List.nodup_append.1 (List.nodup_append.1 inv.distinct).1).1
        inv.ownersNodup owned same (fun q there => (whole q there).2) (fun q there => ?_)
        (fun q positive => ?_) (fun q there => more q there List.not_mem_nil) inv.marks none tmpNone rfl
      · exact inv.counts q ((known q).1 there)
      · exact (known q).2 (inv.there q positive)
    · show rt₂.contents q = _ ∨ rt₂.contents q = _
      rw [same q]
      split
      · exact .inl rfl
      · exact .inr rfl
  · refine ⟨rt₁, ?_, givenBack_of_same ?_ fun q => .inl (congrFun dropped.contents q)⟩
    · simp only [jsFreeValueRT, found, decrement_some cell positive, Option.bind_eq_bind,
        Option.bind_some, ← made]
      rw [if_neg (by omega)]
      rfl
    have refs : refsOf rt₁.contents = refsOf rt.contents := by rw [dropped.contents]
    refine ⟨dropped.gc ▸ balanced.nodup, ?_, ?_, fun q root => ?_, fun q there => ?_, fun q there => ?_,
      ?_, dropped.zero.trans balanced.zero, dropped.tmp.trans balanced.tmp,
      dropped.phase.trans balanced.phase⟩
    · rw [dropped.gc, dropped.contents]
      exact balanced.listed
    · rw [dropped.gc, dropped.contents]
      exact balanced.closed
    · rw [dropped.gc]
      have split := without_total held q
      exact balanced.held q (by omega)
    · rw [dropped.gc] at there
      rw [refs, dropped.gc]
      exact counts_without balanced dropped held q there
    · rw [dropped.gc] at there
      have before := balanced.positive q there
      rw [dropped.count]
      split
      · rw [count_of cell]
        omega
      · exact before
    · rw [dropped.gc, dropped.marks]
      exact balanced.marks

end Counting

section Machine

/-- The heap, and how many references to each allocation are held outside of it: by running
    code, by native code, by jobs. -/
structure Machine where
  rt : Runtime
  outside : Addr → Nat

def Machine.empty : Machine := ⟨⟨fun _ => none, [], [], [], .none⟩, fun _ => 0⟩

inductive Command where
  /-- Allocate an object and fill its fields with references that were held outside. -/
  | newObject (p : Addr) (c : Content)
  | dup (p : Addr)
  | free (v : JSValue)
  /-- Exchange the fields of an object for others. -/
  | write (p : Addr) (c : Content)
  | runGC

/-- `add_gc_object` after the allocation. -/
def addGCObject (rt : Runtime) (p : Addr) (c : Content) : Runtime :=
  { rt.set p (some ⟨1, false, false, c⟩) with gcObjList := rt.gcObjList ++ [p] }

/-- `JS_DupValueRT`, `js_dup_shape` and `JS_DupContext`. -/
def jsDup (rt : Runtime) (p : Addr) : Option Runtime :=
  (rt.heap p).map fun o => rt.set p (some { o with refCount := o.refCount + 1 })

def assign (rt : Runtime) (p : Addr) (c : Content) : Option Runtime :=
  (rt.heap p).map fun o => rt.set p (some { o with content := c })

def Machine.refs (m : Machine) (p : Addr) : List Addr := refsOf m.rt.contents p

def exec : Command → Machine → Option Machine
  | .newObject p c, m => some ⟨addGCObject m.rt p c,
      fun q => m.outside q - c.children.count q + if q = p then 1 else 0⟩
  | .dup p, m => (jsDup m.rt p).map fun rt => ⟨rt, fun q => m.outside q + if q = p then 1 else 0⟩
  | .free v, m => (jsFreeValueRT m.rt v).map fun rt =>
      ⟨rt, (gcAddr? v).elim m.outside (without m.outside)⟩
  | .write p c, m => (assign m.rt p c).map fun rt =>
      ⟨rt, fun q => m.outside q + (m.refs p).count q - c.children.count q⟩
  | .runGC, m => (jsRunGC m.rt).map fun rt => ⟨rt, m.outside⟩

structure Fields (m : Machine) (given : List Addr) (c : Content) : Prop where
  whole : ∀ t, c ≠ .header t
  typed : ∀ ptr ∈ c.releases, ptr.Typed m.rt.contents
  covered : ∀ q, c.children.count q ≤ m.outside q + given.count q

/-- What code that counts its references correctly may do. -/
def Permitted : Command → Machine → Prop
  | .newObject p c, m => m.rt.heap p = none ∧ Fields m [] c
  | .dup p, m => ReachedFrom m.outside m.rt p
  | .free v, m => (Pointer.value v).Typed m.rt.contents ∧ ∀ p ∈ gcAddr? v, 0 < m.outside p
  | .write p c, m => ReachedFrom m.outside m.rt p ∧
      typeOf m.rt.contents p = some c.gcObjType ∧ Fields m (m.refs p) c
  | .runGC, _ => True

inductive Run : List Command → Machine → Prop where
  | start : Run [] .empty
  | step {cs m c m'} (before : Run cs m) (permitted : Permitted c m) (acts : exec c m = some m') :
      Run (cs ++ [c]) m'

structure Sound (m : Machine) : Prop where
  balanced : Balanced m.outside m.rt
  typed : WellTyped m.rt.contents

variable {m m' : Machine} {c : Content} {p : Addr}

theorem typed_congr {contents contents' : Addr → Option Content} {ptr : Pointer}
    (same : ∀ q ∈ ptr.target?, typeOf contents' q = typeOf contents q)
    (pointed : ptr.Typed contents) : ptr.Typed contents' := by
  cases ptr with
  | leaf l =>
    cases l with
    | value v =>
      intro q found
      have before := pointed q found
      rwa [valued, same q found]
    | shape q => exact (same q rfl).trans pointed
    | varRef q => exact (same q rfl).trans pointed
  | context q => exact (same q rfl).trans pointed
  | asyncFunction q => exact (same q rfl).trans pointed

theorem target_child {ptr : Pointer} (among : ptr ∈ c.releases) {q : Addr} (target : q ∈ ptr.target?) :
    q ∈ c.children := by
  rw [← (releases_children c).mem_iff]
  exact List.mem_filterMap.2 ⟨ptr, among, target⟩

theorem wellTyped_left {outside : Addr → Nat} {rt rt' : Runtime} (typed : WellTyped rt.contents)
    (balanced : Balanced outside rt')
    (same : ∀ p, rt'.contents p = rt.contents p ∨ rt'.contents p = none) :
    WellTyped rt'.contents := by
  have from_ : ∀ p c, rt'.contents p = some c → rt.contents p = some c := by
    intro p c here
    rcases same p with equal | none
    · rw [← equal, here]
    · rw [none] at here
      cases here
  refine ⟨fun p t here => typed.whole p t (from_ p _ here), fun p c here ptr among => ?_⟩
  refine typed_congr (fun q target => ?_) (typed.typed p c (from_ p c here) ptr among)
  have listed : p ∈ rt'.gcObjList := (balanced.listed p).2 (by rw [here]; exact Option.some_ne_none c)
  have edge : q ∈ refsOf rt'.contents p := by simpa [refsOf, here] using target_child among target
  have there := (balanced.listed q).1 (balanced.closed p listed q edge)
  rw [typeOf, (same q).resolve_right there, typeOf]

theorem sound_empty : Sound .empty where
  balanced := by
    refine ⟨.nil, fun p => ?_, ?_, ?_, ?_, ?_, ?_, rfl, rfl, rfl⟩ <;>
      simp [Machine.empty, Runtime.contents]
  typed := by
    refine ⟨?_, ?_⟩ <;> simp [Machine.empty, Runtime.contents]

theorem fields_listed {given : List Addr} (balanced : Balanced m.outside m.rt)
    (givenListed : ∀ q ∈ given, q ∈ m.rt.gcObjList) (fields : Fields m given c) :
    ∀ q ∈ c.children, q ∈ m.rt.gcObjList := by
  intro q edge
  have counted := List.count_pos_iff.2 edge
  have covered := fields.covered q
  rcases Nat.eq_zero_or_pos (m.outside q) with none | held
  · exact givenListed q (List.count_pos_iff.1 (by omega))
  · exact balanced.held q held

theorem reached_listed (balanced : Balanced m.outside m.rt) (reached : ReachedFrom m.outside m.rt p) :
    p ∈ m.rt.gcObjList :=
  reached_least (fun q => q ∈ m.rt.gcObjList) balanced.held balanced.closed reached

theorem sound_newObject (sound : Sound m) (permitted : Permitted (.newObject p c) m)
    (acts : exec (.newObject p c) m = some m') : Sound m' := by
  obtain ⟨fresh, fields⟩ := permitted
  have balanced := sound.balanced
  cases acts
  have listed := fields_listed balanced (fun q there => by cases there) fields
  have unlisted : p ∉ m.rt.gcObjList := by
    intro there
    have known := (balanced.listed p).1 there
    simp [Runtime.contents, fresh] at known
  have absent : p ∉ c.children := fun there => unlisted (listed p there)
  have unheld : m.outside p = 0 := Nat.eq_zero_of_not_pos fun held => unlisted (balanced.held p held)
  have unreferred : inward (refsOf m.rt.contents) m.rt.gcObjList p = 0 := by
    refine Nat.eq_zero_of_not_pos fun referred => ?_
    obtain ⟨r, owner, edge⟩ := inward_pos_iff.1 referred
    exact unlisted (balanced.closed r owner p edge)
  have covered : ∀ q, c.children.count q ≤ m.outside q := fun q => by simpa using fields.covered q
  have contents' : ∀ q, (addGCObject m.rt p c).contents q =
      if q = p then some c else m.rt.contents q := by
    intro q
    by_cases equal : q = p <;> simp [addGCObject, Runtime.contents, Runtime.set, equal]
  have count' : ∀ q, (addGCObject m.rt p c).count q = if q = p then 1 else m.rt.count q := by
    intro q
    by_cases equal : q = p <;> simp [addGCObject, Runtime.count, Runtime.set, equal]
  have marks' : ∀ q, (addGCObject m.rt p c).markOf q = if q = p then false else m.rt.markOf q := by
    intro q
    by_cases equal : q = p <;> simp [addGCObject, Runtime.markOf, Runtime.set, equal]
  have refs' : ∀ q, refsOf (addGCObject m.rt p c).contents q =
      if q = p then c.children else refsOf m.rt.contents q := by
    intro q
    rw [refsOf, contents']
    split <;> rfl
  have apart : ∀ q ∈ m.rt.gcObjList, q ≠ p := by
    rintro q there rfl
    exact unlisted there
  have list' : (addGCObject m.rt p c).gcObjList = m.rt.gcObjList ++ [p] := rfl
  have total : ∀ q, inward (refsOf (addGCObject m.rt p c).contents) (m.rt.gcObjList ++ [p]) q =
      inward (refsOf m.rt.contents) m.rt.gcObjList q + c.children.count q := by
    intro q
    rw [inward_append, inward_cons, inward_nil, refs', if_pos rfl, Nat.add_zero]
    congr 1
    exact inward_congr fun r there => by rw [refs', if_neg (apart r there)]
  refine ⟨⟨?_, fun q => ?_, fun q there r edge => ?_, fun q held => ?_, fun q there => ?_,
    fun q there => ?_, fun q there => ?_, balanced.zero, balanced.tmp, balanced.phase⟩, ?_, ?_⟩
  · exact (List.perm_append_singleton p _).nodup_iff.2 (List.nodup_cons.2 ⟨unlisted, balanced.nodup⟩)
  · rw [list', List.mem_append, List.mem_singleton, contents', balanced.listed q]
    by_cases equal : q = p <;> simp [equal]
  · rw [list'] at there ⊢
    rw [refs'] at edge
    refine List.mem_append_left _ ?_
    split at edge
    · exact listed r edge
    · next other =>
      rw [List.mem_append, List.mem_singleton] at there
      exact balanced.closed q (there.resolve_right other) r edge
  · rw [list', List.mem_append, List.mem_singleton]
    by_cases equal : q = p
    · exact .inr equal
    · simp only [equal, if_false] at held
      exact .inl (balanced.held q (by omega))
  · rw [count', list', total]
    have enough := covered q
    by_cases equal : q = p
    · subst equal
      simp only [if_pos, unheld, unreferred, List.count_eq_zero.2 absent]
    · rw [list', List.mem_append, List.mem_singleton] at there
      have before := balanced.counts q (there.resolve_right equal)
      simp only [if_neg equal]
      omega
  · rw [count']
    split
    · exact Nat.zero_lt_one
    · next other =>
      rw [list', List.mem_append, List.mem_singleton] at there
      exact balanced.positive q (there.resolve_right other)
  · rw [marks']
    split
    · rfl
    · next other =>
      rw [list', List.mem_append, List.mem_singleton] at there
      exact balanced.marks q (there.resolve_right other)
  · intro q t here
    rw [contents'] at here
    split at here
    · cases here
      exact fields.whole t rfl
    · exact sound.typed.whole q t here
  · intro q d here ptr among
    have old : ∀ r ∈ ptr.target?, r ∈ m.rt.gcObjList := by
      intro r target
      have edge := target_child among target
      rw [contents'] at here
      split at here
      · cases here
        exact listed r edge
      · have known : q ∈ m.rt.gcObjList :=
          (balanced.listed q).2 (by rw [here]; exact Option.some_ne_none d)
        exact balanced.closed q known r (by simpa [refsOf, here] using edge)
    have kept : ∀ r ∈ ptr.target?,
        typeOf (addGCObject m.rt p c).contents r = typeOf m.rt.contents r := fun r target => by
      rw [typeOf, contents', if_neg (apart r (old r target)), typeOf]
    refine typed_congr kept ?_
    rw [contents'] at here
    split at here
    · cases here
      exact fields.typed ptr among
    · exact sound.typed.typed q d here ptr among

theorem sound_dup (sound : Sound m) (permitted : Permitted (.dup p) m) :
    ∃ m', exec (.dup p) m = some m' ∧ m'.rt.contents = m.rt.contents ∧ Sound m' := by
  have balanced := sound.balanced
  have member := reached_listed balanced permitted
  obtain ⟨d, here⟩ := Option.ne_none_iff_exists'.1 ((balanced.listed p).1 member)
  obtain ⟨o, cell, -⟩ := heap_of_contents here
  have same : (m.rt.set p (some { o with refCount := o.refCount + 1 })).contents = m.rt.contents :=
    contents_count cell _
  refine ⟨⟨m.rt.set p (some { o with refCount := o.refCount + 1 }),
    fun q => m.outside q + if q = p then 1 else 0⟩, by simp [exec, jsDup, cell], same, ?_, ?_⟩
  · refine ⟨balanced.nodup, fun q => ?_, ?_, fun q held => ?_, fun q there => ?_, fun q there => ?_,
      fun q there => ?_, balanced.zero, balanced.tmp, balanced.phase⟩
    · rw [same]
      exact balanced.listed q
    · rw [same]
      exact balanced.closed
    · by_cases equal : q = p
      · rw [equal]
        exact member
      · simp only [equal, if_false, Nat.add_zero] at held
        exact balanced.held q held
    · have before := balanced.counts q there
      rw [count_set, same]
      split
      · next equal =>
        rw [equal, count_of cell] at before
        rw [equal]
        simp only [if_true]
        show o.refCount + 1 = _ + inward _ m.rt.gcObjList _
        omega
      · next other =>
        show _ = (m.outside q + if q = p then 1 else 0) + inward _ m.rt.gcObjList q
        rw [if_neg other]
        exact before
    · have before := balanced.positive q there
      rw [count_set]
      split
      · exact Nat.succ_pos _
      · exact before
    · rw [markOf_set]
      split
      · next equal => rw [← markOf_of cell, ← equal]; exact balanced.marks q there
      · exact balanced.marks q there
  · rw [same]
    exact sound.typed

theorem sound_write (sound : Sound m) (permitted : Permitted (.write p c) m) :
    ∃ m', exec (.write p c) m = some m' ∧
      (∀ q, m'.rt.contents q = if q = p then some c else m.rt.contents q) ∧ Sound m' := by
  obtain ⟨reached, type, fields⟩ := permitted
  have balanced := sound.balanced
  have member := reached_listed balanced reached
  have listed := fields_listed balanced (balanced.closed p member) fields
  obtain ⟨d, here⟩ := Option.ne_none_iff_exists'.1 ((balanced.listed p).1 member)
  obtain ⟨o, cell, -⟩ := heap_of_contents here
  obtain ⟨rt', made⟩ : ∃ rt', rt' = m.rt.set p (some { o with content := c }) := ⟨_, rfl⟩
  have contents' : ∀ q, rt'.contents q = if q = p then some c else m.rt.contents q := by
    intro q
    by_cases equal : q = p <;> simp [made, Runtime.contents, Runtime.set, equal]
  have count' : ∀ q, rt'.count q = m.rt.count q := by
    intro q
    rw [made, count_set]
    split
    · next equal => rw [equal, count_of cell]
    · rfl
  have marks' : ∀ q, rt'.markOf q = m.rt.markOf q := by
    intro q
    rw [made, markOf_set]
    split
    · next equal => rw [equal, markOf_of cell]
    · rfl
  have list' : rt'.gcObjList = m.rt.gcObjList := by rw [made]; rfl
  have refs' : ∀ q, refsOf rt'.contents q = if q = p then c.children else refsOf m.rt.contents q := by
    intro q
    rw [refsOf, contents']
    split <;> rfl
  have types' : ∀ q, typeOf rt'.contents q = typeOf m.rt.contents q := by
    intro q
    rw [typeOf, contents']
    split
    · next equal => rw [equal, type, Option.map_some]
    · rfl
  have total : ∀ q, inward (refsOf rt'.contents) m.rt.gcObjList q + (m.refs p).count q =
      inward (refsOf m.rt.contents) m.rt.gcObjList q + c.children.count q := by
    intro q
    have others : inward (refsOf rt'.contents) (m.rt.gcObjList.erase p) q =
        inward (refsOf m.rt.contents) (m.rt.gcObjList.erase p) q :=
      inward_congr fun r there => by
        rw [refs', if_neg]
        rintro rfl
        exact balanced.nodup.not_mem_erase there
    rw [inward_erase member, @inward_erase _ _ (refsOf m.rt.contents) _ p q member, refs', if_pos rfl,
      others, Machine.refs]
    omega
  refine ⟨⟨rt', fun q => m.outside q + (m.refs p).count q - c.children.count q⟩,
    by simp [exec, assign, cell, made], contents', ?_, ?_, ?_⟩
  · refine ⟨?_, fun q => ?_, fun q there r edge => ?_, fun q held => ?_, fun q there => ?_,
      fun q there => ?_, fun q there => ?_, ?_, ?_, ?_⟩
    · rw [list']
      exact balanced.nodup
    · rw [list', contents', balanced.listed q]
      by_cases equal : q = p <;> simp [equal, here]
    · rw [list'] at there ⊢
      rw [refs'] at edge
      split at edge
      · exact listed r edge
      · exact balanced.closed q there r edge
    · rw [list']
      rcases Nat.eq_zero_or_pos (m.outside q) with unheld | outside
      · have given : 0 < (m.refs p).count q := by
          simp only at held
          omega
        exact balanced.closed p member q (List.count_pos_iff.1 given)
      · exact balanced.held q outside
    · rw [list'] at there ⊢
      have before := balanced.counts q there
      have enough := fields.covered q
      have sum := total q
      rw [count']
      simp only
      omega
    · rw [list'] at there
      rw [count']
      exact balanced.positive q there
    · rw [list'] at there
      rw [marks']
      exact balanced.marks q there
    · rw [made]
      exact balanced.zero
    · rw [made]
      exact balanced.tmp
    · rw [made]
      exact balanced.phase
  · intro q t held
    rw [contents'] at held
    split at held
    · cases held
      exact fields.whole t rfl
    · exact sound.typed.whole q t held
  · intro q e held ptr among
    refine typed_congr (fun r _ => types' r) ?_
    rw [contents'] at held
    split at held
    · cases held
      exact fields.typed ptr among
    · exact sound.typed.typed q e held ptr among

theorem sound_free {v : JSValue} (sound : Sound m) (permitted : Permitted (.free v) m) :
    ∃ m', exec (.free v) m = some m' ∧ m'.outside = (gcAddr? v).elim m.outside (without m.outside) ∧
      (∀ q, ReachedFrom m'.outside m.rt q →
        m'.rt.contents q = m.rt.contents q ∧ m'.rt.contents q ≠ none) ∧ Sound m' := by
  cases found : gcAddr? v with
  | none =>
    refine ⟨m, by simp [exec, jsFreeValueRT, found], rfl, fun q reached => ⟨rfl, ?_⟩, sound⟩
    exact (sound.balanced.listed q).1 (reached_listed sound.balanced reached)
  | some p =>
    obtain ⟨rt', freed, back⟩ := givenBack sound.balanced sound.typed permitted.1 found
      (permitted.2 p found)
    refine ⟨⟨rt', without m.outside p⟩, by simp [exec, freed, found], rfl, back.reached,
      back.balanced, ?_⟩
    exact wellTyped_left sound.typed back.balanced back.same

theorem sound_runGC (sound : Sound m) :
    ∃ m', exec .runGC m = some m' ∧ Collected m.outside m.rt m'.rt ∧ m'.outside = m.outside ∧
      Sound m' := by
  obtain ⟨rt', ran, collected⟩ := Collector.collected sound.balanced sound.typed
  refine ⟨⟨rt', m.outside⟩, by simp [exec, ran], collected, rfl, collected.balanced, ?_⟩
  refine wellTyped_left sound.typed collected.balanced fun q => ?_
  by_cases reached : ReachedFrom m.outside m.rt q
  · exact .inl (collected.reached q reached).1
  · exact .inr (collected.unreached q reached)

theorem sound_step (c : Command) (sound : Sound m) (permitted : Permitted c m) :
    ∃ m', exec c m = some m' ∧ Sound m' := by
  cases c with
  | newObject p c => exact ⟨_, rfl, sound_newObject sound permitted rfl⟩
  | dup p =>
    obtain ⟨m', acts, -, sound'⟩ := sound_dup sound permitted
    exact ⟨m', acts, sound'⟩
  | free v =>
    obtain ⟨m', acts, -, -, sound'⟩ := sound_free sound permitted
    exact ⟨m', acts, sound'⟩
  | write p c =>
    obtain ⟨m', acts, -, sound'⟩ := sound_write sound permitted
    exact ⟨m', acts, sound'⟩
  | runGC =>
    obtain ⟨m', acts, -, -, sound'⟩ := sound_runGC sound
    exact ⟨m', acts, sound'⟩

theorem sound_run {cs : List Command} (run : Run cs m) : Sound m := by
  induction run with
  | start => exact sound_empty
  | step before permitted acts ih =>
    obtain ⟨m', acts', sound'⟩ := sound_step _ ih permitted
    rw [acts] at acts'
    cases acts'
    exact sound'

theorem heap_ne_none {rt : Runtime} : rt.heap p ≠ none ↔ rt.contents p ≠ none := by
  rw [Runtime.contents]
  simp

theorem counted_somewhere (sound : Sound m) (there : m.rt.heap p ≠ none) :
    0 < m.outside p ∨ ∃ r, m.rt.heap r ≠ none ∧ p ∈ m.refs r := by
  have member := (sound.balanced.listed p).2 (heap_ne_none.1 there)
  have counts := sound.balanced.counts p member
  have positive := sound.balanced.positive p member
  rcases Nat.eq_zero_or_pos (m.outside p) with unheld | held
  · obtain ⟨r, owner, edge⟩ := inward_pos_iff.1
      (show 0 < inward (refsOf m.rt.contents) m.rt.gcObjList p by omega)
    exact .inr ⟨r, heap_ne_none.2 ((sound.balanced.listed r).1 owner), edge⟩
  · exact .inl held

theorem run_next {cs : List Command} {c : Command} (run : Run cs m) (permitted : Permitted c m) :
    Run (cs ++ [c]) ((exec c m).getD m) := by
  obtain ⟨m', acts, -⟩ := sound_step c (sound_run run) permitted
  rw [acts]
  exact run.step permitted acts

theorem fields_of {given : List Addr} (whole : ∀ t, c ≠ .header t)
    (typed : ∀ ptr ∈ c.releases, ptr.Typed m.rt.contents)
    (covered : ∀ q ∈ c.children, c.children.count q ≤ m.outside q + given.count q) :
    Fields m given c := by
  refine ⟨whole, typed, fun q => ?_⟩
  by_cases edge : q ∈ c.children
  · exact covered q edge
  · rw [List.count_eq_zero.2 edge]
    exact Nat.zero_le _

/-- An object that refers to itself, made by a run that holds on to it and to its shape. -/
def selfReferring : Machine :=
  let shaped := (exec (.newObject 0 (.shape none)) .empty).getD .empty
  let shared := (exec (.dup 0) shaped).getD shaped
  let made := (exec (.newObject 1 (.jsObject 0 [] .plain)) shared).getD shared
  let held := (exec (.dup 1) made).getD made
  (exec (.write 1 (.jsObject 0 [.value (.object 1)] .plain)) held).getD held

/-- The same after the run has let go of it. -/
def abandoned : Machine := (exec (.free (.object 1)) selfReferring).getD selfReferring

theorem selfReferring_run : ∃ cs, Run cs selfReferring := by
  have shaped := @run_next _ _ (.newObject 0 (.shape none)) .start
    ⟨rfl, fields_of (fun t same => by cases same) (fun ptr among => by cases among) (by decide)⟩
  have shared := @run_next _ _ (.dup 0) shaped (.root (by decide))
  have made := @run_next _ _ (.newObject 1 (.jsObject 0 [] .plain)) shared
    ⟨rfl, fields_of (fun t same => by cases same) (fun ptr among => by
      rw [List.mem_singleton.1 among]
      rfl) (by decide)⟩
  have held := @run_next _ _ (.dup 1) made (.root (by decide))
  have written := @run_next _ _ (.write 1 (.jsObject 0 [.value (.object 1)] .plain)) held
    ⟨.root (by decide), rfl, fields_of (fun t same => by cases same) (fun ptr among => by
      rcases List.mem_cons.1 among with rfl | later
      · intro q found
        cases found
        rfl
      · rw [List.mem_singleton.1 later]
        rfl) (by decide)⟩
  exact ⟨_, written⟩

theorem selfReferring_permitted : Permitted (.free (.object 1)) selfReferring := by
  refine ⟨fun q found => ?_, fun q found => ?_⟩
  · cases found
    rfl
  · cases found
    decide

theorem abandoned_run : ∃ cs, Run cs abandoned := by
  obtain ⟨cs, run⟩ := selfReferring_run
  exact ⟨_, run_next run selfReferring_permitted⟩

theorem abandoned_unreached : ¬ ReachedFrom abandoned.outside abandoned.rt 1 := by
  obtain ⟨cs, run⟩ := abandoned_run
  have list : abandoned.rt.gcObjList = [0, 1] := by decide
  intro reached
  have onlyShape : (1 : Addr) = 0 := by
    refine reached_least (fun q => q = 0) (fun q root => ?_) (fun q shape r edge => ?_) reached
    · have there := (sound_run run).balanced.held q root
      rw [list, List.mem_cons, List.mem_singleton] at there
      rcases there with rfl | rfl
      · rfl
      · have none : abandoned.outside 1 = 0 := by decide
        omega
    · subst shape
      cases edge
  cases onlyShape

theorem commands_succeed {cs : List Command} (run : Run cs m) :
    (∀ c, Permitted c m → ∃ m', exec c m = some m') ∧
    ∀ p, ReachedFrom m.outside m.rt p → ∃ o, m.rt.heap p = some o ∧ 0 < o.refCount ∧
      ∀ t, o.content ≠ .header t := by
  have sound := sound_run run
  refine ⟨fun c permitted => ?_, fun p reached => ?_⟩
  · obtain ⟨m', acts, -⟩ := sound_step c sound permitted
    exact ⟨m', acts⟩
  · have member := reached_listed sound.balanced reached
    obtain ⟨d, here⟩ := Option.ne_none_iff_exists'.1 ((sound.balanced.listed p).1 member)
    obtain ⟨o, cell, -⟩ := heap_of_contents here
    refine ⟨o, cell, ?_, fun t same => sound.typed.whole p t (by rw [contents_of cell, same])⟩
    rw [← count_of cell]
    exact sound.balanced.positive p member

theorem commands_succeed_here : ∃ m', exec (.free (.object 1)) selfReferring = some m' := by
  obtain ⟨cs, run⟩ := selfReferring_run
  exact (commands_succeed run).1 _ selfReferring_permitted

/-- A collection keeps what is reached from outside, as it was and with the counts of what is
    left, and nothing else. -/
theorem collection_exact {cs : List Command} (run : Run cs m) :
    ∃ m', exec .runGC m = some m' ∧ m'.outside = m.outside ∧
      (∀ p, ReachedFrom m.outside m.rt p → m'.rt.contents p = m.rt.contents p) ∧
      (∀ p, m'.rt.heap p ≠ none ↔ ReachedFrom m.outside m.rt p) ∧
      ∀ p, m'.rt.heap p ≠ none → m'.rt.count p = m.outside p + inward m'.refs m'.rt.gcObjList p := by
  obtain ⟨m', acts, collected, held, sound⟩ := sound_runGC (sound_run run)
  refine ⟨m', acts, held, fun p reached => (collected.reached p reached).1, fun p => ?_, fun p there => ?_⟩
  · rw [heap_ne_none]
    refine ⟨fun there => ?_, fun reached => (collected.reached p reached).2⟩
    by_contra unreached
    exact there (collected.unreached p unreached)
  · rw [← held]
    exact sound.balanced.counts p ((sound.balanced.listed p).2 (heap_ne_none.1 there))

theorem collection_of_cycle : ∃ m', exec .runGC abandoned = some m' ∧ m'.rt.heap 1 = none := by
  obtain ⟨cs, run⟩ := abandoned_run
  obtain ⟨m', acts, -, -, left, -⟩ := collection_exact run
  refine ⟨m', acts, ?_⟩
  by_contra there
  exact abandoned_unreached ((left 1).1 there)

/-- Releasing a value frees nothing that is still reached, and leaves nothing that is not
    counted on. -/
theorem release_exact {cs : List Command} {v : JSValue} (run : Run cs m)
    (permitted : Permitted (.free v) m) :
    ∃ m', exec (.free v) m = some m' ∧ m'.outside = (gcAddr? v).elim m.outside (without m.outside) ∧
      (∀ q, ReachedFrom m'.outside m.rt q → m'.rt.contents q = m.rt.contents q ∧ m'.rt.heap q ≠ none) ∧
      ∀ q, m'.rt.heap q ≠ none → 0 < m'.outside q ∨ ∃ r, m'.rt.heap r ≠ none ∧ q ∈ m'.refs r := by
  obtain ⟨m', acts, held, kept, sound⟩ := sound_free (sound_run run) permitted
  exact ⟨m', acts, held, fun q reached => ⟨(kept q reached).1, heap_ne_none.2 (kept q reached).2⟩,
    fun q => counted_somewhere sound⟩

theorem release_of_cycle : ∃ m', exec (.free (.object 1)) selfReferring = some m' ∧
    m'.outside 1 = 0 := by
  obtain ⟨cs, run⟩ := selfReferring_run
  obtain ⟨m', acts, held, -, -⟩ := release_exact run selfReferring_permitted
  exact ⟨m', acts, by rw [held]; decide⟩

end Machine
end QuickJSBridge.Collector
