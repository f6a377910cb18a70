import QuickJSBridge.CollectedHeap

/- The first two passes of the collector. Subtracting the references between listed objects
   leaves the count of those from outside; counting them again from the objects that keep a
   count brings back what is reached from outside, and from the rest the full counts. -/
namespace QuickJSBridge.Collector
open CountedGraphs

namespace Runtime

def count (rt : Runtime) (p : Addr) : Nat := ((rt.heap p).map GCObject.refCount).getD 0
def markOf (rt : Runtime) (p : Addr) : Bool := ((rt.heap p).map GCObject.mark).getD false
def contents (rt : Runtime) (p : Addr) : Option Content := (rt.heap p).map GCObject.content

end Runtime

def refsOf (contents : Addr → Option Content) (p : Addr) : List Addr :=
  ((contents p).map Content.children).getD []

section Updates
variable {rt : Runtime} {p q : Addr} {o o' : GCObject}

theorem count_of (here : rt.heap p = some o) : rt.count p = o.refCount := by
  simp [Runtime.count, here]

theorem markOf_of (here : rt.heap p = some o) : rt.markOf p = o.mark := by
  simp [Runtime.markOf, here]

theorem contents_of (here : rt.heap p = some o) : rt.contents p = some o.content := by
  simp [Runtime.contents, here]

theorem refsOf_of (here : rt.heap p = some o) : refsOf rt.contents p = o.content.children := by
  simp [refsOf, contents_of here]

theorem heap_of_contents {c : Content} (here : rt.contents p = some c) :
    ∃ o, rt.heap p = some o ∧ o.content = c := Option.map_eq_some_iff.1 here

@[simp] theorem count_set :
    (rt.set p (some o)).count q = if q = p then o.refCount else rt.count q := by
  by_cases same : q = p <;> simp [Runtime.count, Runtime.set, same]

@[simp] theorem markOf_set :
    (rt.set p (some o)).markOf q = if q = p then o.mark else rt.markOf q := by
  by_cases same : q = p <;> simp [Runtime.markOf, Runtime.set, same]

theorem contents_set (here : rt.heap p = some o) (same : o'.content = o.content) :
    (rt.set p (some o')).contents = rt.contents := by
  funext q
  by_cases equal : q = p
  · simp [Runtime.contents, Runtime.set, equal, here, same]
  · simp [Runtime.contents, Runtime.set, equal]

theorem contents_count (here : rt.heap p = some o) (n : Nat) :
    (rt.set p (some { o with refCount := n })).contents = rt.contents := contents_set here rfl

theorem contents_mark (here : rt.heap p = some o) (b : Bool) :
    (rt.set p (some { o with mark := b })).contents = rt.contents := contents_set here rfl

theorem contents_freeMark (here : rt.heap p = some o) (b : Bool) :
    (rt.set p (some { o with freeMark := b })).contents = rt.contents := contents_set here rfl

theorem decrement_some (here : rt.heap p = some o) (positive : 0 < o.refCount) :
    decrement rt p = some (rt.set p (some { o with refCount := o.refCount - 1 }),
      { o with refCount := o.refCount - 1 }) := by
  simp [decrement, here, positive]

end Updates

section Lists
variable {p : Addr} {before after : List Addr}

theorem nextIn_append (fresh : p ∉ before) : nextIn (before ++ p :: after) p = after.head? := by
  induction before with
  | nil => simp [nextIn]
  | cons first rest ih =>
    rw [List.mem_cons, not_or] at fresh
    rw [List.cons_append, nextIn, if_neg (Ne.symm fresh.1), ih fresh.2]

end Lists

section Tallies
variable {tally tally' : Addr → Nat} {nodes : List Addr} {p : Addr}

def counted (tally : Addr → Nat) (nodes : List Addr) : List Addr :=
  nodes.filter fun q => 0 < tally q
def uncounted (tally : Addr → Nat) (nodes : List Addr) : List Addr :=
  nodes.filter fun q => tally q = 0

@[simp] theorem mem_counted : p ∈ counted tally nodes ↔ p ∈ nodes ∧ 0 < tally p := by
  simp [counted]

@[simp] theorem mem_uncounted : p ∈ uncounted tally nodes ↔ p ∈ nodes ∧ tally p = 0 := by
  simp [uncounted]

theorem counted_same (same : ∀ q ∈ nodes, 0 < tally' q ↔ 0 < tally q) :
    counted tally' nodes = counted tally nodes ∧ uncounted tally' nodes = uncounted tally nodes := by
  constructor
  · exact List.filter_congr fun q member => decide_eq_decide.2 (same q member)
  · refine List.filter_congr fun q member => decide_eq_decide.2 ?_
    have agree := same q member
    omega

theorem counted_append : counted tally (nodes ++ [p]) =
    if tally p = 0 then counted tally nodes else counted tally nodes ++ [p] := by
  by_cases zero : tally p = 0
  · simp [counted, zero]
  · simp [counted, zero, Nat.pos_of_ne_zero zero]

theorem uncounted_append : uncounted tally (nodes ++ [p]) =
    if tally p = 0 then uncounted tally nodes ++ [p] else uncounted tally nodes := by
  by_cases zero : tally p = 0 <;> simp [uncounted, zero]

theorem counted_uncounted : (counted tally nodes ++ uncounted tally nodes).Perm nodes := by
  have complement : uncounted tally nodes = nodes.filter fun q => !decide (0 < tally q) :=
    List.filter_congr fun q _ => by by_cases zero : tally q = 0 <;> simp [zero]; omega
  rw [complement]
  exact List.filter_append_perm _ nodes

theorem counted_drop (nodup : nodes.Nodup) (gone : tally' p = 0)
    (same : ∀ q, q ≠ p → tally' q = tally q) :
    counted tally' nodes = (counted tally nodes).erase p := by
  unfold counted
  rw [(nodup.filter _).erase_eq_filter, List.filter_filter]
  refine List.filter_congr fun q _ => ?_
  by_cases equal : q = p
  · simp [equal, gone]
  · simp [equal, same q equal]

theorem uncounted_drop (nodup : nodes.Nodup) (member : p ∈ nodes) (gone : tally' p = 0)
    (some : 0 < tally p) (same : ∀ q, q ≠ p → tally' q = tally q) :
    (uncounted tally nodes ++ [p]).Perm (uncounted tally' nodes) := by
  have fresh : (uncounted tally nodes ++ [p]).Nodup :=
    (List.perm_append_singleton p _).nodup_iff.2
      (List.nodup_cons.2 ⟨by simp [some.ne'], nodup.filter _⟩)
  refine (List.perm_ext_iff_of_nodup fresh (nodup.filter _)).2 fun q => ?_
  rw [List.mem_append, List.mem_singleton]
  by_cases equal : q = p
  · subst equal
    simp [uncounted, member, gone]
  · simp [uncounted, equal, same q equal]

end Tallies

section Decref
variable (outside : Addr → Nat) (contents : Addr → Option Content)

/-- While the references of `current` are being subtracted, those in `pending` are still to
    come; the objects in `rest` have not been visited. -/
structure Subtracting (visited current pending rest : List Addr) (rt : Runtime) : Prop where
  same : rt.contents = contents
  counts : ∀ q, contents q ≠ none →
    rt.count q = outside q + inward (refsOf contents) rest q + pending.count q
  marks : ∀ q ∈ visited ++ current ++ rest, rt.markOf q = decide (q ∈ visited)
  listed : rt.gcObjList = counted rt.count visited ++ current ++ rest
  tmp : rt.tmpObjList.Perm (uncounted rt.count visited)
  zero : rt.gcZeroRefCountList = []
  phase : rt.gcPhase = .none

variable {outside contents} {visited current pending rest : List Addr} {rt : Runtime} {p : Addr}

theorem decref_child (nodup : (visited ++ current ++ rest).Nodup)
    (known : contents p ≠ none) (member : p ∈ visited ++ current ++ rest)
    (inv : Subtracting outside contents visited current (p :: pending) rest rt) :
    ∃ rt', gcDecrefChild rt p = some rt' ∧
      Subtracting outside contents visited current pending rest rt' := by
  obtain ⟨c, here⟩ := Option.ne_none_iff_exists'.1 known
  obtain ⟨o, cell, rfl⟩ := heap_of_contents ((congrFun inv.same p).trans here)
  have tallied := inv.counts p known
  rw [List.count_cons_self, count_of cell] at tallied
  have positive : 0 < o.refCount := by omega
  have nodupVisited : visited.Nodup := (List.nodup_append.1 (List.nodup_append.1 nodup).1).1
  have marked := inv.marks p member
  rw [markOf_of cell] at marked
  obtain ⟨rt₁, stepped⟩ : ∃ rt₁, rt₁ = rt.set p (some { o with refCount := o.refCount - 1 }) :=
    ⟨_, rfl⟩
  have contents₁ : rt₁.contents = contents := by rw [stepped, contents_count cell, inv.same]
  have count₁ : ∀ q, rt₁.count q = if q = p then o.refCount - 1 else rt.count q := by simp [stepped]
  have counts : ∀ q, contents q ≠ none →
      rt₁.count q = outside q + inward (refsOf contents) rest q + pending.count q := by
    intro q there
    have before := inv.counts q there
    rw [count₁]
    split
    · next equal => subst equal; omega
    · next other => rw [before, List.count_cons_of_ne (Ne.symm other)]
  have marks : ∀ q ∈ visited ++ current ++ rest, rt₁.markOf q = decide (q ∈ visited) := by
    intro q there
    rw [stepped, markOf_set]
    split
    · next equal => rw [equal, ← marked]
    · exact inv.marks q there
  by_cases last : o.refCount - 1 = 0 ∧ o.mark = true
  · have there : p ∈ visited := by simpa [last.2] using marked.symm
    have others : ∀ q, q ≠ p → rt₁.count q = rt.count q := fun q other => by
      rw [count₁, if_neg other]
    have gone : rt₁.count p = 0 := by rw [count₁, if_pos rfl, last.1]
    have some : 0 < rt.count p := by rw [count_of cell]; exact positive
    refine ⟨moveToTmp rt₁ p, ?_, contents₁, counts, marks, ?_, ?_, ?_, ?_⟩
    · simp [gcDecrefChild, decrement_some cell positive, last, stepped]
    · show rt₁.gcObjList.erase p = counted rt₁.count visited ++ current ++ rest
      rw [counted_drop nodupVisited gone others, stepped]
      show rt.gcObjList.erase p = _
      rw [inv.listed, List.append_assoc, List.append_assoc,
        List.erase_append_left _ (mem_counted.2 ⟨there, some⟩)]
    · show (rt₁.tmpObjList.erase p ++ [p]).Perm (uncounted rt₁.count visited)
      rw [stepped]
      show (rt.tmpObjList.erase p ++ [p]).Perm _
      have elsewhere : p ∉ rt.tmpObjList := by
        rw [inv.tmp.mem_iff, mem_uncounted]
        omega
      rw [List.erase_of_not_mem elsewhere, ← stepped]
      exact (inv.tmp.append_right _).trans (uncounted_drop nodupVisited there gone some others)
    · show rt₁.gcZeroRefCountList.erase p = []
      rw [stepped]
      show rt.gcZeroRefCountList.erase p = []
      rw [inv.zero]
      rfl
    · show rt₁.gcPhase = .none
      rw [stepped]
      exact inv.phase
  · have kept : ∀ q ∈ visited, 0 < rt₁.count q ↔ 0 < rt.count q := by
      intro q there
      rw [count₁]
      split
      · next equal =>
        have still : o.mark = true := by rw [marked]; simpa [equal] using there
        have more : o.refCount - 1 ≠ 0 := fun zero => last ⟨zero, still⟩
        rw [equal, count_of cell]
        omega
      · rfl
    refine ⟨rt₁, ?_, contents₁, counts, marks, ?_, ?_, ?_, ?_⟩
    · simp only [gcDecrefChild, decrement_some cell positive, Option.bind_eq_bind, Option.bind_some,
        if_neg last, stepped]
      rfl
    · rw [(counted_same kept).1, stepped]
      exact inv.listed
    · rw [(counted_same kept).2, stepped]
      exact inv.tmp
    · rw [stepped]
      exact inv.zero
    · rw [stepped]
      exact inv.phase

theorem decref_children (nodup : (visited ++ current ++ rest).Nodup)
    (known : ∀ q ∈ pending, contents q ≠ none ∧ q ∈ visited ++ current ++ rest)
    (inv : Subtracting outside contents visited current pending rest rt) :
    ∃ rt', pending.foldlM gcDecrefChild rt = some rt' ∧
      Subtracting outside contents visited current [] rest rt' := by
  induction pending generalizing rt with
  | nil => exact ⟨rt, rfl, inv⟩
  | cons q later ih =>
    obtain ⟨there, member⟩ := known q List.mem_cons_self
    obtain ⟨rt₁, child, inv₁⟩ := decref_child nodup there member inv
    obtain ⟨rt₂, children, inv₂⟩ := ih (fun q' m => known q' (List.mem_cons_of_mem _ m)) inv₁
    exact ⟨rt₂, by simp [List.foldlM_cons, child, children], inv₂⟩

theorem decref_mark (fresh : p ∉ visited) (known : contents p ≠ none)
    (inv : Subtracting outside contents visited [p] [] rest rt) :
    ∃ o rt', rt.heap p = some o ∧
      (if o.refCount = 0 then moveToTmp (rt.set p (some { o with mark := true })) p
        else rt.set p (some { o with mark := true })) = rt' ∧
      Subtracting outside contents (visited ++ [p]) [] [] rest rt' := by
  obtain ⟨c, here⟩ := Option.ne_none_iff_exists'.1 known
  obtain ⟨o, cell, -⟩ := heap_of_contents ((congrFun inv.same p).trans here)
  obtain ⟨rt₁, stepped⟩ : ∃ rt₁, rt₁ = rt.set p (some { o with mark := true }) := ⟨_, rfl⟩
  have contents₁ : rt₁.contents = contents := by rw [stepped, contents_mark cell, inv.same]
  have count₁ : rt₁.count = rt.count := by
    funext q
    rw [stepped, count_set]
    split
    · next equal => rw [equal, count_of cell]
    · rfl
  have counts : ∀ q, contents q ≠ none →
      rt₁.count q = outside q + inward (refsOf contents) rest q + ([] : List Addr).count q := by
    rw [count₁]
    exact inv.counts
  have marks : ∀ q ∈ (visited ++ [p]) ++ [] ++ rest, rt₁.markOf q = decide (q ∈ visited ++ [p]) := by
    intro q there
    rw [stepped, markOf_set]
    split
    · next equal => simp [equal]
    · next other =>
      rw [inv.marks q (by simpa using there)]
      simp [other]
  refine ⟨o, _, cell, rfl, ?_⟩
  rw [← stepped]
  by_cases zero : o.refCount = 0
  · rw [if_pos zero]
    have gone : rt.count p = 0 := (count_of cell).trans zero
    refine ⟨contents₁, counts, marks, ?_, ?_, ?_, ?_⟩
    · show rt₁.gcObjList.erase p = counted rt₁.count (visited ++ [p]) ++ [] ++ rest
      rw [count₁, counted_append, if_pos gone, stepped]
      show rt.gcObjList.erase p = _
      have later : p ∉ counted rt.count visited := fun member => fresh (mem_counted.1 member).1
      rw [inv.listed, List.append_assoc, List.erase_append_right _ later]
      simp
    · show (rt₁.tmpObjList.erase p ++ [p]).Perm (uncounted rt₁.count (visited ++ [p]))
      rw [count₁, uncounted_append, if_pos gone, stepped]
      show (rt.tmpObjList.erase p ++ [p]).Perm _
      have elsewhere : p ∉ rt.tmpObjList := by
        rw [inv.tmp.mem_iff, mem_uncounted]
        exact fun member => fresh member.1
      rw [List.erase_of_not_mem elsewhere]
      exact inv.tmp.append_right _
    · show rt₁.gcZeroRefCountList.erase p = []
      rw [stepped]
      show rt.gcZeroRefCountList.erase p = []
      rw [inv.zero]
      rfl
    · rw [stepped]
      exact inv.phase
  · rw [if_neg zero]
    have still : rt.count p ≠ 0 := by rw [count_of cell]; exact zero
    refine ⟨contents₁, counts, marks, ?_, ?_, ?_, ?_⟩
    · rw [count₁, counted_append, if_neg still, stepped, List.append_nil]
      exact inv.listed
    · rw [count₁, uncounted_append, if_neg still, stepped]
      exact inv.tmp
    · rw [stepped]
      exact inv.zero
    · rw [stepped]
      exact inv.phase

theorem decref_body (nodup : (visited ++ p :: rest).Nodup)
    (known : ∀ q ∈ visited ++ p :: rest, contents q ≠ none)
    (closed : ∀ q ∈ refsOf contents p, q ∈ visited ++ p :: rest)
    (inv : Subtracting outside contents visited [] [] (p :: rest) rt) :
    ∃ rt', gcDecrefBody rt p = some rt' ∧
      Subtracting outside contents (visited ++ [p]) [] [] rest rt' := by
  have member : p ∈ visited ++ p :: rest := by simp
  obtain ⟨c, here⟩ := Option.ne_none_iff_exists'.1 (known p member)
  obtain ⟨o, cell, rfl⟩ := heap_of_contents ((congrFun inv.same p).trans here)
  have fresh : p ∉ visited := fun there =>
    (List.nodup_append.1 nodup).2.2 p there p List.mem_cons_self rfl
  have unmarked : o.mark = false := by
    rw [← markOf_of cell, inv.marks p (by simp)]
    exact decide_eq_false fresh
  have regroup : visited ++ [p] ++ rest = visited ++ p :: rest := by simp
  have children : refsOf contents p = o.content.children := by
    rw [← inv.same]
    exact refsOf_of cell
  have entered : Subtracting outside contents visited [p] o.content.children rest rt := by
    refine ⟨inv.same, ?_, ?_, ?_, inv.tmp, inv.zero, inv.phase⟩
    · intro q there
      have before := inv.counts q there
      rw [inward_cons, children] at before
      simp only [List.count_nil] at before
      omega
    · intro q there
      exact inv.marks q (by simpa using there)
    · rw [inv.listed]
      simp
  obtain ⟨rt₁, subtracted, inv₁⟩ := decref_children (by rw [regroup]; exact nodup) (fun q edge => by
    rw [regroup]
    rw [← children] at edge
    exact ⟨known q (closed q edge), closed q edge⟩) entered
  obtain ⟨o', rt₂, cell', marked, inv₂⟩ := decref_mark fresh (known p member) inv₁
  refine ⟨rt₂, ?_, inv₂⟩
  rw [← marked]
  simp only [gcDecrefBody, markChildren, cell, unmarked, subtracted, cell', guard, Option.bind_eq_bind,
    Option.bind_some, if_true]
  rfl

theorem decref_loop (nodup : (visited ++ rest).Nodup)
    (known : ∀ q ∈ visited ++ rest, contents q ≠ none)
    (closed : ∀ p ∈ visited ++ rest, ∀ q ∈ refsOf contents p, q ∈ visited ++ rest)
    (inv : Subtracting outside contents visited [] [] rest rt) :
    ∃ rt', listForEachSafe Runtime.gcObjList gcDecrefBody rest.length rest.head? rt = some rt' ∧
      Subtracting outside contents (visited ++ rest) [] [] [] rt' := by
  induction rest generalizing visited rt with
  | nil =>
    refine ⟨rt, rfl, ?_⟩
    rw [List.append_nil]
    exact inv
  | cons p later ih =>
    have regroup : visited ++ [p] ++ later = visited ++ p :: later := by simp
    obtain ⟨rt₁, stepped, inv₁⟩ := decref_body nodup known (closed p (by simp)) inv
    obtain ⟨rt₂, looped, inv₂⟩ := ih (by rw [regroup]; exact nodup) (by rw [regroup]; exact known)
      (by rw [regroup]; exact closed) inv₁
    rw [regroup] at inv₂
    refine ⟨rt₂, ?_, inv₂⟩
    have fresh : p ∉ counted rt.count visited ++ [] := by
      intro there
      rw [List.append_nil, mem_counted] at there
      exact (List.nodup_append.1 nodup).2.2 p there.1 p List.mem_cons_self rfl
    have upcoming : nextIn rt.gcObjList p = later.head? := by
      rw [inv.listed]
      exact nextIn_append fresh
    have onList : ∀ q ∈ later.head?, q ∈ rt₁.gcObjList := by
      intro q first
      rw [inv₁.listed]
      exact List.mem_append_right _ (List.mem_of_mem_head? first)
    show listForEachSafe Runtime.gcObjList gcDecrefBody (later.length + 1) (some p) rt = some rt₂
    simp only [listForEachSafe, upcoming, stepped, guard, if_pos onList, Option.bind_eq_bind,
      Option.bind_some]
    exact looped

end Decref

section Scan
variable (outside : Addr → Nat) (contents : Addr → Option Content) (nodes : List Addr)

/-- While the children of `current` are counted again, those in `seen` have been; the list
    grows at its end by what is counted for the first time. -/
structure Adding (scanned current seen todo : List Addr) (rt : Runtime) : Prop where
  same : rt.contents = contents
  counts : ∀ q, contents q ≠ none →
    rt.count q = outside q + inward (refsOf contents) scanned q + seen.count q
  listed : rt.gcObjList = scanned ++ current ++ todo
  split : (scanned ++ current ++ todo ++ rt.tmpObjList).Perm nodes
  positive : ∀ q ∈ rt.gcObjList, 0 < rt.count q
  rest : ∀ q ∈ rt.tmpObjList, rt.count q = 0
  reached : ∀ q ∈ rt.gcObjList, Reached (refsOf contents) (fun q => 0 < outside q) q
  marks : ∀ q ∈ scanned ++ current, rt.markOf q = false
  zero : rt.gcZeroRefCountList = []
  phase : rt.gcPhase = .none

variable {outside contents nodes} {scanned current seen todo : List Addr} {rt : Runtime} {p : Addr}

theorem scan_child (known : contents p ≠ none) (member : p ∈ nodes) (nodup : nodes.Nodup)
    (reached : Reached (refsOf contents) (fun q => 0 < outside q) p)
    (inv : Adding outside contents nodes scanned current seen todo rt) :
    ∃ rt' more, gcScanIncrefChild rt p = some rt' ∧
      Adding outside contents nodes scanned current (p :: seen) (todo ++ more) rt' := by
  obtain ⟨c, here⟩ := Option.ne_none_iff_exists'.1 known
  obtain ⟨o, cell, -⟩ := heap_of_contents ((congrFun inv.same p).trans here)
  have nodupSplit := inv.split.nodup_iff.2 nodup
  have disjoint : ∀ q ∈ rt.gcObjList, q ∉ rt.tmpObjList := by
    intro q listed tmp
    rw [inv.listed] at listed
    exact (List.nodup_append.1 nodupSplit).2.2 q listed q tmp rfl
  have counts : ∀ q, contents q ≠ none → (if q = p then o.refCount + 1 else rt.count q) =
      outside q + inward (refsOf contents) scanned q + (p :: seen).count q := by
    intro q there
    have before := inv.counts q there
    split
    · next equal =>
      rw [equal, count_of cell] at before
      rw [equal, List.count_cons_self, before]
      omega
    · next other => rw [before, List.count_cons_of_ne (Ne.symm other)]
  by_cases first : o.refCount = 0
  · have absent : p ∉ rt.gcObjList := by
      intro listed
      have positive := inv.positive p listed
      rw [count_of cell] at positive
      omega
    have tmp : p ∈ rt.tmpObjList := by
      have somewhere := inv.split.mem_iff.2 member
      rw [← inv.listed] at somewhere
      exact (List.mem_append.1 somewhere).resolve_left absent
    obtain ⟨rt₁, stepped⟩ : ∃ rt₁, rt₁ = rt.set p
        (some { { o with refCount := o.refCount + 1 } with mark := false }) := ⟨_, rfl⟩
    have contents₁ : rt₁.contents = contents := by
      rw [stepped, ← inv.same]
      exact contents_set cell rfl
    have count₁ : ∀ q, rt₁.count q = if q = p then o.refCount + 1 else rt.count q := by
      simp [stepped]
    have list₁ : rt₁.gcObjList = rt.gcObjList := by rw [stepped]; rfl
    have tmp₁ : rt₁.tmpObjList = rt.tmpObjList := by rw [stepped]; rfl
    refine ⟨{ rt₁.listDel p with gcObjList := (rt₁.listDel p).gcObjList ++ [p] }, [p], ?_,
      contents₁, fun q there => (count₁ q).trans (counts q there), ?_, ?_, ?_, ?_, ?_, ?_, ?_, ?_⟩
    · simp [gcScanIncrefChild, cell, first, stepped]
    · show rt₁.gcObjList.erase p ++ [p] = _
      rw [list₁, List.erase_of_not_mem absent, inv.listed, List.append_assoc]
    · show (scanned ++ current ++ (todo ++ [p]) ++ rt₁.tmpObjList.erase p).Perm nodes
      refine List.Perm.trans ?_ inv.split
      rw [tmp₁, ← List.append_assoc (scanned ++ current) todo, List.append_assoc _ [p]]
      exact (List.perm_cons_erase tmp).symm.append_left _
    · intro q listed
      show 0 < rt₁.count q
      rw [count₁]
      split
      · omega
      · next other =>
        refine inv.positive q ?_
        have elements : q ∈ rt₁.gcObjList.erase p ++ [p] := listed
        rw [list₁, List.erase_of_not_mem absent, List.mem_append, List.mem_singleton] at elements
        exact elements.resolve_right other
    · intro q listed
      show rt₁.count q = 0
      have elements : q ∈ rt₁.tmpObjList.erase p := listed
      rw [tmp₁] at elements
      have tmpNodup := (List.nodup_append.1 nodupSplit).2.1
      rw [tmpNodup.mem_erase_iff] at elements
      rw [count₁, if_neg elements.1]
      exact inv.rest q elements.2
    · intro q listed
      have elements : q ∈ rt₁.gcObjList.erase p ++ [p] := listed
      rw [list₁, List.erase_of_not_mem absent, List.mem_append, List.mem_singleton] at elements
      rcases elements with before | rfl
      · exact inv.reached q before
      · exact reached
    · intro q there
      show rt₁.markOf q = false
      rw [stepped, markOf_set]
      split
      · rfl
      · exact inv.marks q there
    · show rt₁.gcZeroRefCountList.erase p = []
      rw [stepped]
      show rt.gcZeroRefCountList.erase p = []
      rw [inv.zero]
      rfl
    · show rt₁.gcPhase = .none
      rw [stepped]
      exact inv.phase
  · obtain ⟨rt₁, stepped⟩ : ∃ rt₁, rt₁ = rt.set p (some { o with refCount := o.refCount + 1 }) :=
      ⟨_, rfl⟩
    have contents₁ : rt₁.contents = contents := by rw [stepped, contents_count cell, inv.same]
    have count₁ : ∀ q, rt₁.count q = if q = p then o.refCount + 1 else rt.count q := by
      simp [stepped]
    refine ⟨rt₁, [], ?_, contents₁, fun q there => (count₁ q).trans (counts q there), ?_, ?_, ?_, ?_,
      ?_, ?_, ?_, ?_⟩
    · simp [gcScanIncrefChild, cell, first, stepped]
    · rw [List.append_nil, stepped]
      exact inv.listed
    · rw [List.append_nil, stepped]
      exact inv.split
    · intro q listed
      rw [stepped] at listed
      rw [count₁]
      split
      · omega
      · exact inv.positive q listed
    · intro q listed
      rw [stepped] at listed
      have other : q ≠ p := by
        rintro rfl
        exact first ((count_of cell).symm.trans (inv.rest q listed))
      rw [count₁, if_neg other]
      exact inv.rest q listed
    · rw [stepped]
      exact inv.reached
    · intro q there
      rw [stepped, markOf_set]
      split
      · next equal => rw [← markOf_of cell, ← equal]; exact inv.marks q there
      · exact inv.marks q there
    · rw [stepped]
      exact inv.zero
    · rw [stepped]
      exact inv.phase

theorem scan_children {later : List Addr} (nodup : nodes.Nodup)
    (known : ∀ q ∈ later, contents q ≠ none ∧ q ∈ nodes ∧
      Reached (refsOf contents) (fun q => 0 < outside q) q)
    (inv : Adding outside contents nodes scanned current seen todo rt) :
    ∃ rt' more, later.foldlM gcScanIncrefChild rt = some rt' ∧
      Adding outside contents nodes scanned current (later.reverse ++ seen) (todo ++ more) rt' := by
  induction later generalizing seen todo rt with
  | nil => exact ⟨rt, [], rfl, by simpa using inv⟩
  | cons q rest ih =>
    obtain ⟨there, member, reached⟩ := known q List.mem_cons_self
    obtain ⟨rt₁, more₁, child, inv₁⟩ := scan_child there member nodup reached inv
    obtain ⟨rt₂, more₂, children, inv₂⟩ :=
      ih (fun q' m => known q' (List.mem_cons_of_mem _ m)) inv₁
    refine ⟨rt₂, more₁ ++ more₂, by simp [List.foldlM_cons, child, children], ?_⟩
    simpa using inv₂

theorem scan_body (nodup : nodes.Nodup) (known : ∀ q ∈ nodes, contents q ≠ none)
    (closed : ∀ p ∈ nodes, ∀ q ∈ refsOf contents p, q ∈ nodes)
    (inv : Adding outside contents nodes scanned [] [] (p :: todo) rt) :
    ∃ rt' more, gcScanBody rt p = some rt' ∧
      Adding outside contents nodes (scanned ++ [p]) [] [] (todo ++ more) rt' := by
  have listed : p ∈ rt.gcObjList := by
    rw [inv.listed]
    simp
  have member : p ∈ nodes := inv.split.mem_iff.1 (by simp)
  obtain ⟨c, here⟩ := Option.ne_none_iff_exists'.1 (known p member)
  obtain ⟨o, cell, rfl⟩ := heap_of_contents ((congrFun inv.same p).trans here)
  have positive : 0 < o.refCount := by
    rw [← count_of cell]
    exact inv.positive p listed
  have children : refsOf contents p = o.content.children := by
    rw [← inv.same]
    exact refsOf_of cell
  obtain ⟨rt₁, stepped⟩ : ∃ rt₁, rt₁ = rt.set p (some { o with mark := false }) := ⟨_, rfl⟩
  have count₁ : rt₁.count = rt.count := by
    funext q
    rw [stepped, count_set]
    split
    · next equal => rw [equal, count_of cell]
    · rfl
  have entered : Adding outside contents nodes scanned [p] [] todo rt₁ := by
    refine ⟨?_, ?_, ?_, ?_, ?_, ?_, ?_, ?_, ?_, ?_⟩
    · rw [stepped, contents_mark cell, inv.same]
    · rw [count₁]
      exact inv.counts
    · rw [stepped]
      show rt.gcObjList = _
      rw [inv.listed]
      simp
    · rw [stepped]
      show (scanned ++ [p] ++ todo ++ rt.tmpObjList).Perm nodes
      have before := inv.split
      simpa using before
    · rw [count₁, stepped]
      exact inv.positive
    · rw [count₁, stepped]
      exact inv.rest
    · rw [stepped]
      exact inv.reached
    · intro q there
      rw [stepped, markOf_set]
      split
      · rfl
      · next other =>
        refine inv.marks q ?_
        rw [List.append_nil]
        rw [List.mem_append, List.mem_singleton] at there
        exact there.resolve_right other
    · rw [stepped]
      exact inv.zero
    · rw [stepped]
      exact inv.phase
  have ready : ∀ q ∈ o.content.children, contents q ≠ none ∧ q ∈ nodes ∧
      Reached (refsOf contents) (fun q => 0 < outside q) q := by
    intro q edge
    rw [← children] at edge
    exact ⟨known q (closed p member q edge), closed p member q edge,
      .next (inv.reached p listed) edge⟩
  obtain ⟨rt₂, more, counted, inv₂⟩ := scan_children nodup ready entered
  refine ⟨rt₂, more, ?_, inv₂.same, ?_, ?_, ?_, inv₂.positive, inv₂.rest, inv₂.reached, ?_,
    inv₂.zero, inv₂.phase⟩
  · have cell₁ : rt₁.heap p = some { o with mark := false } := by
      rw [stepped]
      exact Function.update_self ..
    simp only [gcScanBody, cell, guard, if_pos positive, Option.bind_eq_bind, Option.bind_some,
      markChildren, ← stepped, cell₁]
    exact counted
  · intro q there
    rw [inv₂.counts q there, inward_append, inward_cons, inward_nil, children]
    simp
    omega
  · rw [inv₂.listed]
    simp
  · have split := inv₂.split
    simpa using split
  · intro q there
    exact inv₂.marks q (by simpa using there)

theorem scan_loop (nodup : nodes.Nodup) (known : ∀ q ∈ nodes, contents q ≠ none)
    (closed : ∀ p ∈ nodes, ∀ q ∈ refsOf contents p, q ∈ nodes) {fuel : Nat}
    (enough : nodes.length ≤ fuel + scanned.length)
    (inv : Adding outside contents nodes scanned [] [] todo rt) :
    ∃ rt' all, listForEach Runtime.gcObjList gcScanBody fuel todo.head? rt = some rt' ∧
      Adding outside contents nodes all [] [] [] rt' := by
  induction fuel generalizing scanned todo rt with
  | zero =>
    have sizes := inv.split.length_eq
    cases todo with
    | nil => exact ⟨rt, scanned, rfl, inv⟩
    | cons p later =>
      simp only [List.length_append, List.length_cons] at sizes
      omega
  | succ fuel ih =>
    cases todo with
    | nil => exact ⟨rt, scanned, rfl, inv⟩
    | cons p later =>
      obtain ⟨rt₁, more, stepped, inv₁⟩ := scan_body nodup known closed inv
      have still : p ∈ rt₁.gcObjList := by
        rw [inv₁.listed]
        simp
      have fresh : p ∉ scanned := by
        have distinct := inv.split.nodup_iff.2 nodup
        rw [List.append_nil, List.append_assoc] at distinct
        exact fun there => (List.nodup_append.1 distinct).2.2 p there p (by simp) rfl
      have upcoming : nextIn rt₁.gcObjList p = (later ++ more).head? := by
        rw [inv₁.listed]
        simpa using @nextIn_append p scanned (later ++ more) fresh
      obtain ⟨rt₂, all, looped, inv₂⟩ := ih (by simp; omega) inv₁
      refine ⟨rt₂, all, ?_, inv₂⟩
      show listForEach Runtime.gcObjList gcScanBody (fuel + 1) (some p) rt = some rt₂
      simp only [listForEach, stepped, guard, if_pos still, upcoming, Option.bind_eq_bind,
        Option.bind_some]
      exact looped

end Scan

section Restore
variable (outside : Addr → Nat) (contents : Addr → Option Content) (kept tmp : List Addr)

structure Restoring (restored seen : List Addr) (rt : Runtime) : Prop where
  same : rt.contents = contents
  counts : ∀ q, contents q ≠ none →
    rt.count q = outside q + inward (refsOf contents) (kept ++ restored) q + seen.count q
  listed : rt.gcObjList = kept
  tmp : rt.tmpObjList = tmp
  marks : ∀ q ∈ kept, rt.markOf q = false
  zero : rt.gcZeroRefCountList = []
  phase : rt.gcPhase = .none

variable {outside contents kept tmp} {restored seen rest : List Addr} {rt : Runtime} {p : Addr}

theorem restore_child (known : contents p ≠ none)
    (inv : Restoring outside contents kept tmp restored seen rt) :
    ∃ rt', gcScanIncrefChild2 rt p = some rt' ∧
      Restoring outside contents kept tmp restored (p :: seen) rt' := by
  obtain ⟨c, here⟩ := Option.ne_none_iff_exists'.1 known
  obtain ⟨o, cell, -⟩ := heap_of_contents ((congrFun inv.same p).trans here)
  refine ⟨rt.set p (some { o with refCount := o.refCount + 1 }), ?_, ?_, ?_, inv.listed, inv.tmp, ?_,
    inv.zero, inv.phase⟩
  · simp [gcScanIncrefChild2, cell]
  · rw [contents_count cell, inv.same]
  · intro q there
    have before := inv.counts q there
    rw [count_set]
    split
    · next equal =>
      rw [equal, count_of cell] at before
      rw [equal, List.count_cons_self]
      simp only
      omega
    · next other => rw [before, List.count_cons_of_ne (Ne.symm other)]
  · intro q there
    rw [markOf_set]
    split
    · next equal => rw [← markOf_of cell, ← equal]; exact inv.marks q there
    · exact inv.marks q there

theorem restore_children {later : List Addr} (known : ∀ q ∈ later, contents q ≠ none)
    (inv : Restoring outside contents kept tmp restored seen rt) :
    ∃ rt', later.foldlM gcScanIncrefChild2 rt = some rt' ∧
      Restoring outside contents kept tmp restored (later.reverse ++ seen) rt' := by
  induction later generalizing seen rt with
  | nil => exact ⟨rt, rfl, by simpa using inv⟩
  | cons p rest ih =>
    obtain ⟨rt₁, child, inv₁⟩ := restore_child (known p List.mem_cons_self) inv
    obtain ⟨rt₂, children, inv₂⟩ := ih (fun q m => known q (List.mem_cons_of_mem _ m)) inv₁
    exact ⟨rt₂, by simp [List.foldlM_cons, child, children], by simpa using inv₂⟩

theorem restore_body (known : contents p ≠ none) (closed : ∀ q ∈ refsOf contents p, contents q ≠ none)
    (inv : Restoring outside contents kept tmp restored [] rt) :
    ∃ rt', markChildren gcScanIncrefChild2 rt p = some rt' ∧
      Restoring outside contents kept tmp (restored ++ [p]) [] rt' := by
  obtain ⟨c, here⟩ := Option.ne_none_iff_exists'.1 known
  obtain ⟨o, cell, rfl⟩ := heap_of_contents ((congrFun inv.same p).trans here)
  have children : refsOf contents p = o.content.children := by
    rw [← inv.same]
    exact refsOf_of cell
  rw [children] at closed
  obtain ⟨rt₁, counted, inv₁⟩ := restore_children closed inv
  refine ⟨rt₁, ?_, inv₁.same, ?_, inv₁.listed, inv₁.tmp, inv₁.marks, inv₁.zero, inv₁.phase⟩
  · simp only [markChildren, cell, Option.bind_eq_bind, Option.bind_some]
    exact counted
  · intro q there
    rw [inv₁.counts q there]
    simp only [inward_append, inward_cons, inward_nil, children, List.count_append, List.count_reverse,
      List.count_nil]
    omega

theorem restore_loop (nodup : tmp.Nodup) (known : ∀ q ∈ tmp, contents q ≠ none)
    (closed : ∀ p ∈ tmp, ∀ q ∈ refsOf contents p, contents q ≠ none) {fuel : Nat}
    (split : tmp = restored ++ rest) (enough : rest.length ≤ fuel)
    (inv : Restoring outside contents kept tmp restored [] rt) :
    ∃ rt', listForEach Runtime.tmpObjList (markChildren gcScanIncrefChild2) fuel rest.head? rt =
      some rt' ∧ Restoring outside contents kept tmp tmp [] rt' := by
  induction rest generalizing restored rt fuel with
  | nil =>
    rw [List.append_nil] at split
    subst split
    cases fuel <;> exact ⟨rt, rfl, inv⟩
  | cons p later ih =>
    obtain ⟨fuel, rfl⟩ : ∃ n, fuel = n + 1 := Nat.exists_eq_succ_of_ne_zero (by
      simp only [List.length_cons] at enough
      omega)
    have member : p ∈ tmp := by simp [split]
    obtain ⟨rt₁, stepped, inv₁⟩ := restore_body (known p member) (closed p member) inv
    have fresh : p ∉ restored := by
      rw [split] at nodup
      exact fun there => (List.nodup_append.1 nodup).2.2 p there p List.mem_cons_self rfl
    have upcoming : nextIn rt₁.tmpObjList p = later.head? := by
      rw [inv₁.tmp, split]
      exact nextIn_append fresh
    have still : p ∈ rt₁.tmpObjList := by rw [inv₁.tmp]; exact member
    have split₁ : tmp = restored ++ [p] ++ later := by simp [split]
    have enough₁ : later.length ≤ fuel := by
      simp only [List.length_cons] at enough
      omega
    obtain ⟨rt₂, looped, inv₂⟩ := ih split₁ enough₁ inv₁
    refine ⟨rt₂, ?_, inv₂⟩
    show listForEach Runtime.tmpObjList (markChildren gcScanIncrefChild2) (fuel + 1) (some p) rt =
      some rt₂
    simp only [listForEach, stepped, guard, if_pos still, upcoming, Option.bind_eq_bind,
      Option.bind_some]
    exact looped

end Restore

/-- A heap between operations: what is listed is what is allocated, and every count is that of
    the references from listed objects together with those from outside. -/
structure Balanced (outside : Addr → Nat) (rt : Runtime) : Prop where
  nodup : rt.gcObjList.Nodup
  listed : ∀ p, p ∈ rt.gcObjList ↔ rt.contents p ≠ none
  closed : ∀ p ∈ rt.gcObjList, ∀ q ∈ refsOf rt.contents p, q ∈ rt.gcObjList
  held : ∀ p, 0 < outside p → p ∈ rt.gcObjList
  counts : ∀ p ∈ rt.gcObjList,
    rt.count p = outside p + inward (refsOf rt.contents) rt.gcObjList p
  positive : ∀ p ∈ rt.gcObjList, 0 < rt.count p
  marks : ∀ p ∈ rt.gcObjList, rt.markOf p = false
  zero : rt.gcZeroRefCountList = []
  tmp : rt.tmpObjList = []
  phase : rt.gcPhase = .none

section Passes
variable {outside : Addr → Nat} {rt : Runtime}

/-- What is reached from a reference that no listed object holds. -/
abbrev ReachedFrom (outside : Addr → Nat) (rt : Runtime) : Addr → Prop :=
  Reached (refsOf rt.contents) fun q => 0 < outside q

/-- After both passes the objects reached from outside are on the list and the others on the
    temporary list, with their counts as before. -/
structure Scanned (outside : Addr → Nat) (rt rt' : Runtime) : Prop where
  same : rt'.contents = rt.contents
  counts : ∀ p ∈ rt.gcObjList, rt'.count p = rt.count p
  split : (rt'.gcObjList ++ rt'.tmpObjList).Perm rt.gcObjList
  reached : ∀ p, p ∈ rt'.gcObjList ↔ ReachedFrom outside rt p
  marks : ∀ p ∈ rt'.gcObjList, rt'.markOf p = false
  zero : rt'.gcZeroRefCountList = []
  phase : rt'.gcPhase = .none

theorem subtracted (balanced : Balanced outside rt) :
    ∃ rt', gcDecref rt = some rt' ∧
      Subtracting outside rt.contents rt.gcObjList [] [] [] rt' := by
  have entered : Subtracting outside rt.contents [] [] [] rt.gcObjList { rt with tmpObjList := [] } := by
    refine ⟨rfl, fun q there => ?_, fun q there => ?_, rfl, .refl _, balanced.zero, balanced.phase⟩
    · exact balanced.counts q ((balanced.listed q).2 there)
    · exact balanced.marks q there
  exact @decref_loop outside rt.contents [] rt.gcObjList _ balanced.nodup
    (fun q => (balanced.listed q).1) balanced.closed entered

/-- The pass that adds starts from what is left of the list, in any case with the counts from
    outside. -/
theorem adding_of_subtracted {rt' : Runtime} (balanced : Balanced outside rt)
    (sub : Subtracting outside rt.contents rt.gcObjList [] [] [] rt') :
    Adding outside rt.contents rt.gcObjList [] [] [] rt'.gcObjList rt' := by
  have list : rt'.gcObjList = counted rt'.count rt.gcObjList := by simpa using sub.listed
  refine ⟨sub.same, sub.counts, rfl, ?_, ?_, ?_, ?_, ?_, sub.zero, sub.phase⟩
  · rw [List.nil_append, List.nil_append, list]
    exact (sub.tmp.append_left _).trans counted_uncounted
  · intro q there
    rw [list] at there
    exact (mem_counted.1 there).2
  · intro q there
    rw [sub.tmp.mem_iff] at there
    exact (mem_uncounted.1 there).2
  · intro q there
    rw [list, mem_counted] at there
    have net := sub.counts q ((balanced.listed q).1 there.1)
    simp only [inward_nil, List.count_nil, Nat.add_zero] at net
    exact .root (net ▸ there.2)
  · simp

theorem kept_iff_reached {rt' : Runtime} {all : List Addr} (balanced : Balanced outside rt)
    (added : Adding outside rt.contents rt.gcObjList all [] [] [] rt') (p : Addr) :
    p ∈ rt'.gcObjList ↔ ReachedFrom outside rt p := by
  have list : rt'.gcObjList = all := by simpa using added.listed
  have somewhere : ∀ q ∈ rt.gcObjList, q ∈ rt'.gcObjList ∨ q ∈ rt'.tmpObjList := fun q there => by
    have split := added.split.mem_iff.2 there
    rw [List.append_nil, List.append_nil, ← list] at split
    exact List.mem_append.1 split
  -- what the temporary list holds is not counted on
  have keeps : ∀ q ∈ rt.gcObjList, 0 < outside q + inward (refsOf rt.contents) all q →
      q ∈ rt'.gcObjList := by
    intro q there positive
    refine (somewhere q there).resolve_right fun tmp => ?_
    have none := added.rest q tmp
    have tallied := added.counts q ((balanced.listed q).1 there)
    simp only [List.count_nil] at tallied
    omega
  have inside : ∀ q ∈ rt'.gcObjList, q ∈ rt.gcObjList := fun q there => by
    refine added.split.mem_iff.1 ?_
    rw [List.append_nil, List.append_nil, ← list]
    exact List.mem_append_left _ there
  refine ⟨added.reached p, reached_least (fun q => q ∈ rt'.gcObjList) ?_ ?_⟩
  · intro q root
    exact keeps q (balanced.held q root) (by omega)
  · intro q there r edge
    have referred := inward_pos (list ▸ there) edge
    exact keeps r (balanced.closed q (inside q there) r edge) (by omega)

theorem scanned (balanced : Balanced outside rt) :
    ∃ rt₁ rt', gcDecref rt = some rt₁ ∧ gcScan rt₁ = some rt' ∧ Scanned outside rt rt' := by
  obtain ⟨rt₁, decref, sub⟩ := subtracted balanced
  have known : ∀ q ∈ rt.gcObjList, rt.contents q ≠ none := fun q => (balanced.listed q).1
  have entered := adding_of_subtracted balanced sub
  have fuel : rt.gcObjList.length ≤
      rt₁.gcObjList.length + rt₁.tmpObjList.length + ([] : List Addr).length := by
    have sizes := entered.split.length_eq
    simp only [List.nil_append, List.length_append] at sizes
    simp only [List.length_nil]
    omega
  obtain ⟨rt₂, all, looped, added⟩ := scan_loop balanced.nodup known balanced.closed fuel entered
  have list : rt₂.gcObjList = all := by simpa using added.listed
  have split : (rt₂.gcObjList ++ rt₂.tmpObjList).Perm rt.gcObjList := by
    simpa [list] using added.split
  have inTmp : ∀ q ∈ rt₂.tmpObjList, q ∈ rt.gcObjList := fun q there =>
    split.mem_iff.1 (List.mem_append_right _ there)
  have restoring : Restoring outside rt.contents rt₂.gcObjList rt₂.tmpObjList [] [] rt₂ := by
    refine ⟨added.same, fun q there => ?_, rfl, rfl, fun q there => ?_, added.zero, added.phase⟩
    · rw [added.counts q there, list, List.append_nil]
    · exact added.marks q (by simpa [← list] using there)
  have distinct := (List.nodup_append.1 (split.nodup_iff.2 balanced.nodup)).2.1
  have closed : ∀ p ∈ rt₂.tmpObjList, ∀ q ∈ refsOf rt.contents p, rt.contents q ≠ none :=
    fun p there q edge => known q (balanced.closed p (inTmp p there) q edge)
  have again : rt₂.tmpObjList.length ≤ rt₁.gcObjList.length + rt₁.tmpObjList.length := by
    have total := split.length_eq
    simp only [List.length_append] at total
    simp only [List.length_nil] at fuel
    omega
  obtain ⟨rt₃, restored, final⟩ := restore_loop distinct (fun q there => known q (inTmp q there))
    closed rfl again restoring
  refine ⟨rt₁, rt₃, decref, ?_, final.same, ?_, ?_, ?_, ?_, final.zero, final.phase⟩
  · simp only [gcScan, looped, restored, Option.bind_eq_bind, Option.bind_some]
  · intro q there
    rw [balanced.counts q there, final.counts q (known q there), inward_perm split, List.count_nil]
    rfl
  · rw [final.listed, final.tmp]
    exact split
  · rw [final.listed]
    exact kept_iff_reached balanced added
  · rw [final.listed]
    exact final.marks

end Passes
end QuickJSBridge.Collector
