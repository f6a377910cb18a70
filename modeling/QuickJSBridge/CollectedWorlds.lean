import QuickJSBridge.BridgeMachine
import QuickJSBridge.CollectorRuns

/- The collector below the engine of the bridge. Where the cells of a world carry the counts
   of a heap, a collection of that heap is a run of the steps the engine of the bridge may
   take without JS code, so what holds of the bridge holds with this collector. -/
namespace QuickJSBridge.Collector
open CountedGraphs

section Drops
variable {w w' : World} {c : Cell} {p : Addr}

structure DroppedFrom (w : World) (p : Addr) (left : Option Cell) (w' : World) : Prop where
  globalObj : w'.globalObj = w.globalObj
  here : w'.heap p = left
  elsewhere : ∀ q, q ≠ p → w'.heap q = w.heap q

theorem finalizer_heap (w : World) (callback : Option FuncCallback) :
    (w.jsFuncCallbackFinalizer callback).heap = w.heap ∧
    (w.jsFuncCallbackFinalizer callback).globalObj = w.globalObj := by
  unfold World.jsFuncCallbackFinalizer
  split
  · exact ⟨rfl, rfl⟩
  · dsimp only
    split <;> exact ⟨rfl, rfl⟩

theorem drop_once (here : w.heap p = some c) (spare : w.reserved p < c.heapRefs) :
    ∃ w', w.drop p = some w' ∧ DroppedFrom w p
      (if c.refCount ≤ 1 then none
        else some { c with refCount := c.refCount - 1, heapRefs := c.heapRefs - 1 }) w' := by
  have given : w.toNative p = some (w.setCell p (some { c with heapRefs := c.heapRefs - 1 })) := by
    simp [World.toNative, here, spare]
  have cell : (w.setCell p (some { c with heapRefs := c.heapRefs - 1 })).heap p =
      some { c with heapRefs := c.heapRefs - 1 } := Function.update_self ..
  unfold World.drop
  rw [given, Option.bind_some]
  unfold World.release
  rw [cell, Option.map_some]
  by_cases last : c.refCount ≤ 1
  · rw [if_pos last, if_pos last]
    obtain ⟨heap, globalObj⟩ := finalizer_heap
      ((w.setCell p (some { c with heapRefs := c.heapRefs - 1 })).setCell p none) c.callback
    refine ⟨_, rfl, globalObj, ?_, fun q other => ?_⟩
    · rw [heap]
      exact Function.update_self ..
    · rw [heap]
      simp [World.setCell, other]
  · rw [if_neg last, if_neg last]
    refine ⟨_, rfl, rfl, Function.update_self .., fun q other => ?_⟩
    simp [World.setCell, other]

theorem drop_many {n : Nat} (here : w.heap p = some c) (spare : n + w.reserved p ≤ c.heapRefs)
    (enough : n ≤ c.refCount) (counted : 0 < c.refCount) :
    ∃ w', (List.replicate n p).foldlM World.drop w = some w' ∧ DroppedFrom w p
      (if n = c.refCount then none
        else some { c with refCount := c.refCount - n, heapRefs := c.heapRefs - n }) w' := by
  induction n generalizing w c with
  | zero =>
    refine ⟨w, rfl, rfl, ?_, fun _ _ => rfl⟩
    rw [if_neg (by omega)]
    exact here
  | succ n ih =>
    obtain ⟨w₁, dropped, after⟩ := drop_once here (by omega)
    by_cases last : c.refCount ≤ 1
    · have none : n = 0 := by omega
      subst none
      rw [if_pos last] at after
      refine ⟨w₁, by simp [List.foldlM_cons, dropped], after.globalObj, ?_, after.elsewhere⟩
      rw [if_pos (by omega)]
      exact after.here
    · rw [if_neg last] at after
      have reserved : w₁.reserved p = w.reserved p := by
        unfold World.reserved
        rw [after.globalObj]
      obtain ⟨w₂, later, final⟩ := ih after.here (by simp only; omega) (by simp only; omega)
        (by simp only; omega)
      refine ⟨w₂, by simp [List.replicate_succ, List.foldlM_cons, dropped, later],
        final.globalObj.trans after.globalObj, ?_,
        fun q other => (final.elsewhere q other).trans (after.elsewhere q other)⟩
      rw [final.here]
      simp only
      by_cases all : n + 1 = c.refCount
      · rw [if_pos all, if_pos (by omega)]
      · rw [if_neg all, if_neg (by omega)]
        congr 2 <;> omega

theorem drop_nodes {nodes : List Addr} (k : Addr → Nat) (nodup : nodes.Nodup)
    (ready : ∀ p ∈ nodes, ∃ c, w.heap p = some c ∧ k p + w.reserved p ≤ c.heapRefs ∧
      k p ≤ c.refCount ∧ 0 < c.refCount) :
    ∃ w', (nodes.flatMap fun p => List.replicate (k p) p).foldlM World.drop w = some w' ∧
      w'.globalObj = w.globalObj ∧ (∀ q, q ∉ nodes → w'.heap q = w.heap q) ∧
      ∀ p ∈ nodes, ∀ c, w.heap p = some c → w'.heap p = if k p = c.refCount then none
        else some { c with refCount := c.refCount - k p, heapRefs := c.heapRefs - k p } := by
  induction nodes generalizing w with
  | nil => exact ⟨w, rfl, rfl, fun _ _ => rfl, fun p there => by cases there⟩
  | cons p rest ih =>
    rw [List.nodup_cons] at nodup
    obtain ⟨c, here, spare, enough, counted⟩ := ready p List.mem_cons_self
    obtain ⟨w₁, first, after⟩ := drop_many here spare enough counted
    have others : ∀ q ∈ rest, w₁.heap q = w.heap q := fun q there => after.elsewhere q (by
      rintro rfl
      exact nodup.1 there)
    obtain ⟨w₂, later, globalObj, outside, inside⟩ := ih nodup.2 fun q there => by
      obtain ⟨d, there', spare, enough, counted⟩ := ready q (List.mem_cons_of_mem _ there)
      refine ⟨d, (others q there).trans there', ?_, enough, counted⟩
      unfold World.reserved at spare ⊢
      rw [after.globalObj]
      exact spare
    refine ⟨w₂, ?_, globalObj.trans after.globalObj, fun q absent => ?_, fun q there d held => ?_⟩
    · rw [List.flatMap_cons, List.foldlM_append, first, Option.bind_eq_bind, Option.bind_some, later]
    · rw [List.mem_cons, not_or] at absent
      exact (outside q absent.2).trans (after.elsewhere q absent.1)
    · rcases List.mem_cons.1 there with rfl | among
      · rw [here] at held
        cases held
        exact (outside q nodup.1).trans after.here
      · exact inside q among d ((others q among).trans held)

end Drops

section Simulation
variable {lent : Addr → Nat} {globalObj : Addr} {m m' m'' : Machine} {w w' : World} {p : Addr}

/-- Native code holds some of the references from outside of a heap, and the context, which
    someone holds, refers to its global object. -/
structure Holding (lent : Addr → Nat) (globalObj : Addr) (m : Machine) : Prop where
  held : ∀ p, lent p ≤ m.outside p
  global : ∃ ctx, 0 < m.outside ctx ∧ globalObj ∈ m.refs ctx

/-- The cells of a world carry the counts of a heap; all references that native code does not
    hold are the engine's. -/
structure Mirrors (lent : Addr → Nat) (uncollected : Addr → Prop) (m : Machine) (w : World) :
    Prop where
  cells : ∀ p, m.rt.heap p ≠ none → ∃ c, w.heap p = some c ∧ c.refCount = m.rt.count p ∧
    c.heapRefs + lent p = m.rt.count p
  /-- The other cells are strings, symbols and big numbers. -/
  apart : ∀ p, w.heap p ≠ none → m.rt.heap p ≠ none ∨ uncollected p
  holding : Holding lent w.globalObj m

theorem foldlM_drops (ps : List Addr) :
    (ps.map EngineEvent.drop).foldlM engineEvent w = ps.foldlM World.drop w := by
  rw [List.foldlM_map]
  rfl

structure LeftOf (m m' : Machine) : Prop where
  balanced : Balanced m'.outside m'.rt
  same : ∀ p, m'.rt.contents p = m.rt.contents p ∨ m'.rt.contents p = none
  fewer : ∀ p, m'.outside p ≤ m.outside p

theorem listed_of_left (sound : Sound m) (left : LeftOf m m') :
    ∀ q ∈ m'.rt.gcObjList, q ∈ m.rt.gcObjList ∧
      refsOf m'.rt.contents q = refsOf m.rt.contents q := by
  intro q there
  have known := (left.balanced.listed q).1 there
  have same := (left.same q).resolve_right known
  refine ⟨(sound.balanced.listed q).2 (by rwa [← same]), ?_⟩
  rw [refsOf, same, refsOf]

theorem counts_left (sound : Sound m) (left : LeftOf m m') (there : p ∈ m'.rt.gcObjList) :
    m'.rt.count p ≤ m.rt.count p ∧ m'.outside p ≤ m'.rt.count p ∧
      ∀ q ∈ m'.rt.gcObjList, p ∈ m.refs q → m'.outside p < m'.rt.count p := by
  have known := listed_of_left sound left
  have now := left.balanced.counts p there
  rw [inward_congr fun q listed => (known q listed).2] at now
  have before := sound.balanced.counts p (known p there).1
  have fewer := @inward_subset _ _ (refsOf m.rt.contents) _ m.rt.gcObjList p left.balanced.nodup
    fun q listed => (known q listed).1
  have given := left.fewer p
  refine ⟨by omega, by omega, fun q listed edge => ?_⟩
  have referred : 0 < inward (refsOf m.rt.contents) m'.rt.gcObjList p := inward_pos listed edge
  omega

theorem uncounted_of_gone (gone : m.rt.heap p = none) : m.rt.count p = 0 := by
  simp [Runtime.count, gone]

variable {uncollected : Addr → Prop} {cls : Content → Option ObjectClass}

theorem drops_mirrored (sound : Sound m) (left : LeftOf m m') (mirrors : Mirrors lent uncollected m w)
    (holding : Holding lent w.globalObj m') :
    ∃ (ps : List Addr) (w' : World), (ps.map EngineEvent.drop).foldlM engineEvent w = some w' ∧
      w'.globalObj = w.globalObj ∧ Mirrors lent uncollected m' w' ∧
      ∀ p, m'.rt.heap p ≠ none → (w'.heap p).map Cell.serial = (w.heap p).map Cell.serial := by
  obtain ⟨ctx, root, holds⟩ := holding.global
  have balanced := sound.balanced
  have known := listed_of_left sound left
  have listed : ∀ p, p ∈ m.rt.gcObjList ↔ m.rt.heap p ≠ none := fun p =>
    (balanced.listed p).trans heap_ne_none.symm
  have listed' : ∀ p, p ∈ m'.rt.gcObjList ↔ m'.rt.heap p ≠ none := fun p =>
    (left.balanced.listed p).trans heap_ne_none.symm
  have ctxLeft : ctx ∈ m'.rt.gcObjList := left.balanced.held ctx root
  have globalLeft : w.globalObj ∈ m'.rt.gcObjList := left.balanced.closed ctx ctxLeft _ holds
  have holds' : w.globalObj ∈ m.refs ctx := by
    rw [Machine.refs, ← (known ctx ctxLeft).2]
    exact holds
  have owned : ∀ p, p ∉ m'.rt.gcObjList → lent p = 0 ∧ m'.rt.count p = 0 := by
    intro p absent
    refine ⟨?_, uncounted_of_gone (by rwa [listed', not_not] at absent)⟩
    have unheld : m'.outside p = 0 := Nat.eq_zero_of_not_pos fun positive =>
      absent (left.balanced.held p positive)
    have covered := holding.held p
    omega
  -- as many drops as the count falls by
  obtain ⟨w', dropped, globalObj, outside, inside⟩ := @drop_nodes w m.rt.gcObjList
    (fun p => m.rt.count p - m'.rt.count p) balanced.nodup (by
      intro p there
      obtain ⟨c, held, refCount, heapRefs⟩ := mirrors.cells p ((listed p).1 there)
      have positive := balanced.positive p there
      refine ⟨c, held, ?_, by omega, by omega⟩
      by_cases kept : p ∈ m'.rt.gcObjList
      · obtain ⟨fewer, least, more⟩ := counts_left sound left kept
        have covered := holding.held p
        unfold World.reserved
        split
        · next isGlobal =>
          have strict := more ctx ctxLeft (isGlobal ▸ holds')
          omega
        · omega
      · obtain ⟨unowned, uncounted⟩ := owned p kept
        have other : p ≠ w.globalObj := fun same => kept (same ▸ globalLeft)
        rw [World.reserved, if_neg other]
        omega)
  have cells : ∀ p ∈ m'.rt.gcObjList, ∃ c c', w.heap p = some c ∧ w'.heap p = some c' ∧
      c'.serial = c.serial ∧ c'.refCount = m'.rt.count p ∧ c'.heapRefs + lent p = m'.rt.count p := by
    intro p kept
    obtain ⟨there, -⟩ := known p kept
    obtain ⟨c, held, refCount, heapRefs⟩ := mirrors.cells p ((listed p).1 there)
    obtain ⟨fewer, least, -⟩ := counts_left sound left kept
    have positive := left.balanced.positive p kept
    have covered := holding.held p
    refine ⟨c, { c with
      refCount := c.refCount - (m.rt.count p - m'.rt.count p)
      heapRefs := c.heapRefs - (m.rt.count p - m'.rt.count p) }, held, ?_, rfl, ?_, ?_⟩
    · rw [inside p there c held, if_neg (by omega)]
    · simp only
      omega
    · simp only
      omega
  refine ⟨m.rt.gcObjList.flatMap fun p => List.replicate (m.rt.count p - m'.rt.count p) p, w', ?_,
    globalObj, ⟨fun p kept => ?_, fun p there => ?_, ?_⟩, fun p kept => ?_⟩
  · rw [foldlM_drops]
    exact dropped
  · obtain ⟨-, c', -, here, -, refCount, heapRefs⟩ := cells p ((listed' p).2 kept)
    exact ⟨c', here, refCount, heapRefs⟩
  · by_cases before : p ∈ m.rt.gcObjList
    · left
      rw [← listed']
      by_contra absent
      obtain ⟨c, held, refCount, -⟩ := mirrors.cells p ((listed p).1 before)
      obtain ⟨-, uncounted⟩ := owned p absent
      exact there (by rw [inside p before c held, if_pos (by omega)])
    · rw [outside p before] at there
      right
      exact (mirrors.apart p there).resolve_left fun known => before ((listed p).2 known)
  · rw [globalObj]
    exact holding
  · obtain ⟨c, c', here, here', serial, -, -⟩ := cells p ((listed' p).2 kept)
    rw [here, here', Option.map_some, Option.map_some, serial]

theorem dup_mirrored (mirrors : Mirrors lent uncollected m w) (there : m.rt.heap p ≠ none)
    (known : ∀ q, m'.rt.heap q ≠ none ↔ m.rt.heap q ≠ none)
    (counts : ∀ q, m'.rt.count q = m.rt.count q + if q = p then 1 else 0)
    (holding : Holding lent w.globalObj m') :
    ∃ w', w.dup p = some w' ∧ w'.globalObj = w.globalObj ∧ Mirrors lent uncollected m' w' ∧
      ∀ q, (w'.heap q).map Cell.serial = (w.heap q).map Cell.serial := by
  obtain ⟨c, held, refCount, heapRefs⟩ := mirrors.cells p there
  have others : ∀ (d : Cell) q, q ≠ p → (w.setCell p (some d)).heap q = w.heap q := by
    intro d q other
    simp [World.setCell, other]
  have here : ∀ d : Cell, (w.setCell p (some d)).heap p = some d := fun d => by simp [World.setCell]
  refine ⟨w.setCell p (some { c with refCount := c.refCount + 1, heapRefs := c.heapRefs + 1 }),
    by simp [World.dup, held], rfl, ⟨fun q known' => ?_, fun q there' => ?_, holding⟩, fun q => ?_⟩
  · have tally := counts q
    by_cases same : q = p
    · subst same
      rw [if_pos rfl] at tally
      exact ⟨_, here _, by simp only; omega, by simp only; omega⟩
    · rw [if_neg same, Nat.add_zero] at tally
      obtain ⟨d, held', refCount', heapRefs'⟩ := mirrors.cells q ((known q).1 known')
      exact ⟨d, (others _ q same).trans held', by omega, by omega⟩
  · rw [known]
    by_cases same : q = p
    · exact .inl (same ▸ there)
    · rw [others _ q same] at there'
      exact mirrors.apart q there'
  · by_cases same : q = p
    · rw [same, here, held]
      rfl
    · rw [others _ q same]

/-- What code that leaves native code's references alone may add to a run. -/
inductive Continues (lent : Addr → Nat) (globalObj : Addr) (uncollected : Addr → Prop) :
    List Command → Machine → Machine → Prop where
  | done {m : Machine} : Continues lent globalObj uncollected [] m m
  | step {cs : List Command} {c : Command} {m m' m'' : Machine} (permitted : Permitted c m)
      (fresh : ∀ p d, c = .newObject p d → p ≠ 0 ∧ ¬ uncollected p) (acts : exec c m = some m')
      (holding : Holding lent globalObj m')
      (rest : Continues lent globalObj uncollected cs m' m'') :
      Continues lent globalObj uncollected (c :: cs) m m''

/-- Engine events that duplicate and allocate what the commands do, drop references, and leave
    every cell native code refers to the object that it was. -/
structure Follows (lent : Addr → Nat) (cls : Content → Option ObjectClass) (cs : List Command)
    (es : List EngineEvent) (w w' : World) : Prop where
  runs : es.foldlM engineEvent w = some w'
  globalObj : w'.globalObj = w.globalObj
  asked : ∀ e ∈ es, (∃ p, e = .drop p) ∨ (∃ p, .dup p ∈ cs ∧ e = .dup p) ∨
    ∃ p c, .newObject p c ∈ cs ∧ e = .alloc p (cls c)
  serials : ∀ p, 0 < lent p → (w'.heap p).map Cell.serial = (w.heap p).map Cell.serial

theorem Follows.trans {w'' : World} {cs : List Command} {c : Command} {es fs : List EngineEvent}
    (first : Follows lent cls [c] es w w') (rest : Follows lent cls cs fs w' w'') :
    Follows lent cls (c :: cs) (es ++ fs) w w'' := by
  refine ⟨?_, rest.globalObj.trans first.globalObj, fun e among => ?_, fun p positive => ?_⟩
  · rw [List.foldlM_append, first.runs, Option.bind_eq_bind, Option.bind_some, rest.runs]
  · have asked : ∀ ds : List Command, (∀ d ∈ ds, d ∈ c :: cs) →
        ((∃ p, e = .drop p) ∨ (∃ p, .dup p ∈ ds ∧ e = .dup p) ∨
          ∃ p d, .newObject p d ∈ ds ∧ e = .alloc p (cls d)) →
        (∃ p, e = .drop p) ∨ (∃ p, .dup p ∈ c :: cs ∧ e = .dup p) ∨
          ∃ p d, .newObject p d ∈ c :: cs ∧ e = .alloc p (cls d) := by
      rintro ds inside (drop | ⟨p, here, same⟩ | ⟨p, d, here, same⟩)
      · exact .inl drop
      · exact .inr (.inl ⟨p, inside _ here, same⟩)
      · exact .inr (.inr ⟨p, d, inside _ here, same⟩)
    rcases List.mem_append.1 among with there | there
    · exact asked [c] (by simp) (first.asked e there)
    · exact asked cs (fun _ => List.mem_cons_of_mem _) (rest.asked e there)
  · exact (rest.serials p positive).trans (first.serials p positive)

theorem there_of_owned (sound : Sound m) (holding : Holding lent globalObj m) (owned : 0 < lent p) :
    m.rt.heap p ≠ none := by
  have covered := holding.held p
  exact heap_ne_none.2 ((sound.balanced.listed p).1 (sound.balanced.held p (by omega)))

theorem left_mirrored {c : Command} (sound : Sound m) (sound' : Sound m') (left : LeftOf m m')
    (mirrors : Mirrors lent uncollected m w) (holding : Holding lent w.globalObj m') :
    ∃ es w', Follows lent cls [c] es w w' ∧ Mirrors lent uncollected m' w' := by
  obtain ⟨ps, w', runs, global, mirrors', serials⟩ := drops_mirrored sound left mirrors holding
  refine ⟨_, w', ⟨runs, global, fun e among => ?_, fun p owned => ?_⟩, mirrors'⟩
  · obtain ⟨p, -, rfl⟩ := List.mem_map.1 among
    exact .inl ⟨p, rfl⟩
  · exact serials p (there_of_owned sound' holding owned)

theorem newObject_mirrored {c : Content} (sound : Sound m) (mirrors : Mirrors lent uncollected m w)
    (permitted : Permitted (.newObject p c) m)
    (fresh : p ≠ 0 ∧ ¬ uncollected p) (acts : exec (.newObject p c) m = some m')
    (holding : Holding lent w.globalObj m') :
    ∃ es w', Follows lent cls [.newObject p c] es w w' ∧ Mirrors lent uncollected m' w' := by
  obtain ⟨unused, -⟩ := permitted
  have free : w.heap p = none := by
    by_contra there
    exact (mirrors.apart p there).elim (fun known => known unused) fresh.2
  have unowned : lent p = 0 := Nat.eq_zero_of_not_pos fun owned =>
    there_of_owned sound mirrors.holding owned unused
  cases acts
  obtain ⟨w', made⟩ : ∃ w', w' = { w.setCell p (some ⟨w.nextSerial, cls c, 1, 1, none⟩) with
    nextSerial := w.nextSerial + 1 } := ⟨_, rfl⟩
  have others : ∀ q, q ≠ p → w'.heap q = w.heap q ∧
      (addGCObject m.rt p c).heap q = m.rt.heap q := by
    intro q other
    simp [made, World.setCell, addGCObject, Runtime.set, other]
  have here : w'.heap p = some ⟨w.nextSerial, cls c, 1, 1, none⟩ := by
    simp [made, World.setCell]
  have one : (addGCObject m.rt p c).count p = 1 := by
    simp [addGCObject, Runtime.count, Runtime.set]
  refine ⟨[.alloc p (cls c)], w', ⟨?_, by rw [made]; rfl, fun e among => ?_, fun q owned => ?_⟩,
    fun q known => ?_, fun q there => ?_, ?_⟩
  · simp [List.foldlM_cons, engineEvent, World.alloc, fresh.1, free, made]
  · exact .inr (.inr ⟨p, c, List.mem_cons_self, List.mem_singleton.1 among⟩)
  · rw [(others q _).1]
    rintro rfl
    omega
  · by_cases same : q = p
    · subst same
      exact ⟨_, here, one.symm, by rw [unowned, one]⟩
    · rw [(others q same).2] at known
      obtain ⟨d, held, refCount, heapRefs⟩ := mirrors.cells q known
      have count : (addGCObject m.rt p c).count q = m.rt.count q := by
        simp [Runtime.count, (others q same).2]
      exact ⟨d, (others q same).1.trans held, by rw [count, refCount], by rw [count, heapRefs]⟩
  · by_cases same : q = p
    · left
      simp [same, addGCObject, Runtime.set]
    · rw [(others q same).1] at there
      rw [(others q same).2]
      exact mirrors.apart q there
  · rw [made]
    exact holding

theorem dup_followed (sound : Sound m) (mirrors : Mirrors lent uncollected m w)
    (permitted : Permitted (.dup p) m) (acts : exec (.dup p) m = some m')
    (holding : Holding lent w.globalObj m') :
    ∃ es w', Follows lent cls [.dup p] es w w' ∧ Mirrors lent uncollected m' w' := by
  have there : m.rt.heap p ≠ none :=
    heap_ne_none.2 ((sound.balanced.listed p).1 (reached_listed sound.balanced permitted))
  obtain ⟨o, cell⟩ := Option.ne_none_iff_exists'.1 there
  simp only [exec, jsDup, cell, Option.map_some, Option.some.injEq] at acts
  subst acts
  obtain ⟨w', dups, global, mirrors', serials⟩ := dup_mirrored mirrors there (fun q => by
    by_cases same : q = p <;> simp [Runtime.set, same, cell]) (fun q => by
    rw [count_set]
    split
    · next same => rw [same, count_of cell]
    · rfl) holding
  refine ⟨[.dup p], w', ⟨?_, global, fun e among => ?_, fun q _ => serials q⟩, mirrors'⟩
  · simp [List.foldlM_cons, engineEvent, dups]
  · exact .inr (.inl ⟨p, List.mem_cons_self, List.mem_singleton.1 among⟩)

theorem write_mirrored {c : Content} (mirrors : Mirrors lent uncollected m w)
    (acts : exec (.write p c) m = some m') (holding : Holding lent w.globalObj m') :
    Mirrors lent uncollected m' w := by
  obtain ⟨rt', assigned, rfl⟩ := Option.map_eq_some_iff.1 acts
  obtain ⟨o, cell, rfl⟩ := Option.map_eq_some_iff.1 assigned
  have count : ∀ q, (m.rt.set p (some { o with content := c })).count q = m.rt.count q := by
    intro q
    rw [count_set]
    split
    · next same => rw [same, count_of cell]
    · rfl
  have known : ∀ q, (m.rt.set p (some { o with content := c })).heap q ≠ none ↔ m.rt.heap q ≠ none := by
    intro q
    by_cases same : q = p <;> simp [Runtime.set, same, cell]
  refine ⟨fun q there => ?_, fun q there => ?_, holding⟩
  · obtain ⟨d, held, refCount, heapRefs⟩ := mirrors.cells q ((known q).1 there)
    exact ⟨d, held, by rw [count, refCount], by rw [count, heapRefs]⟩
  · rw [known]
    exact mirrors.apart q there

theorem left_of_free {v : JSValue} (sound : Sound m) (permitted : Permitted (.free v) m)
    (acts : exec (.free v) m = some m') : LeftOf m m' := by
  obtain ⟨rt', freed, rfl⟩ := Option.map_eq_some_iff.1 acts
  cases found : gcAddr? v with
  | none =>
    rw [jsFreeValueRT, found] at freed
    obtain rfl := Option.some.inj freed
    exact ⟨sound.balanced, fun _ => .inl rfl, fun _ => Nat.le_refl _⟩
  | some p =>
    have held := permitted.2 p found
    obtain ⟨rt₁, freed₁, back⟩ := givenBack sound.balanced sound.typed permitted.1 found held
    rw [freed] at freed₁
    cases freed₁
    refine ⟨back.balanced, back.same, fun q => ?_⟩
    have total := without_total held q
    simp only [Option.elim_some]
    omega

theorem command_mirrored {c : Command} (sound : Sound m) (sound' : Sound m')
    (mirrors : Mirrors lent uncollected m w) (permitted : Permitted c m)
    (fresh : ∀ p d, c = .newObject p d → p ≠ 0 ∧ ¬ uncollected p) (acts : exec c m = some m')
    (holding : Holding lent w.globalObj m') :
    ∃ es w', Follows lent cls [c] es w w' ∧ Mirrors lent uncollected m' w' := by
  cases c with
  | newObject p c =>
    exact newObject_mirrored sound mirrors permitted (fresh p c rfl) acts holding
  | dup p => exact dup_followed sound mirrors permitted acts holding
  | free v =>
    exact left_mirrored sound sound' (left_of_free sound permitted acts) mirrors holding
  | write p c =>
    refine ⟨[], w, ⟨rfl, rfl, fun e among => ?_, fun _ _ => rfl⟩, write_mirrored mirrors acts holding⟩
    cases among
  | runGC =>
    obtain ⟨m₁, acts₁, collected, outside, -⟩ := sound_runGC sound
    cases acts.symm.trans acts₁
    refine left_mirrored sound sound' ⟨sound'.balanced, fun p => ?_, fun p => ?_⟩ mirrors holding
    · by_cases reached : ReachedFrom m.outside m.rt p
      · exact .inl (collected.reached p reached).1
      · exact .inr (collected.unreached p reached)
    · rw [outside]

theorem run_mirrored {cs : List Command} (sound : Sound m)
    (mirrors : Mirrors lent uncollected m w)
    (continues : Continues lent w.globalObj uncollected cs m m') :
    ∃ es w', Follows lent cls cs es w w' ∧ Mirrors lent uncollected m' w' := by
  obtain ⟨g, isGlobal⟩ : ∃ g, g = w.globalObj := ⟨_, rfl⟩
  rw [← isGlobal] at continues
  induction continues generalizing w with
  | done => exact ⟨[], w, ⟨rfl, rfl, fun e among => absurd among List.not_mem_nil, fun _ _ => rfl⟩,
    mirrors⟩
  | step permitted fresh acts holding rest ih =>
    subst isGlobal
    obtain ⟨m₁, acts₁, sound₁⟩ := sound_step _ sound permitted
    cases acts.symm.trans acts₁
    obtain ⟨es, w₁, first, mirrors₁⟩ :=
      command_mirrored sound sound₁ mirrors permitted fresh acts holding
    obtain ⟨fs, w₂, later, mirrors₂⟩ := ih sound₁ mirrors₁ first.globalObj.symm
    exact ⟨es ++ fs, w₂, first.trans later, mirrors₂⟩

/-- The memory manager below the bridge: whatever it does in a run that leaves native code's
    references alone is a run of the engine of the bridge, and no cell native code refers to is
    freed or made anew. -/
theorem commands_mirrored {before cs : List Command} (run : Run before m)
    (mirrors : Mirrors lent uncollected m w)
    (continues : Continues lent w.globalObj uncollected cs m m') :
    ∃ es w', Follows lent cls cs es w w' ∧ Mirrors lent uncollected m' w' :=
  run_mirrored (sound_run run) mirrors continues

/-- A context with its global object, to which native code refers, and an object that only refers
    to itself. -/
def referredGlobal : Machine :=
  let shaped := (exec (.newObject 1 (.shape none)) .empty).getD .empty
  let shared := (exec (.dup 1) shaped).getD shaped
  let made := (exec (.newObject 2 (.jsObject 1 [] .plain)) shared).getD shared
  let other := (exec (.newObject 4 (.jsObject 1 [] .plain)) made).getD made
  let held := (exec (.dup 4) other).getD other
  let looped := (exec (.write 4 (.jsObject 1 [.value (.object 4)] .plain)) held).getD held
  let dropped := (exec (.free (.object 4)) looped).getD looped
  let referred := (exec (.dup 2) dropped).getD dropped
  (exec (.newObject 3 (.jsContext [] [.object 2] none)) referred).getD referred

def referredWorld : World :=
  ((((World.fresh 2 fun _ => []).setCell 1 (some ⟨1, none, 2, 2, none⟩)).setCell 2
    (some ⟨0, some .plain, 2, 1, none⟩)).setCell 3 (some ⟨3, none, 1, 1, none⟩)).setCell 4
    (some ⟨2, some .plain, 1, 1, none⟩)

theorem referredGlobal_run : ∃ cs, Run cs referredGlobal := by
  have shaped := @run_next _ _ (.newObject 1 (.shape none)) .start
    ⟨rfl, fields_of (fun t same => by cases same) (fun ptr among => by cases among) (by decide)⟩
  have shared := @run_next _ _ (.dup 1) shaped (.root (by decide))
  have made := @run_next _ _ (.newObject 2 (.jsObject 1 [] .plain)) shared
    ⟨rfl, fields_of (fun t same => by cases same) (fun ptr among => by
      rw [List.mem_singleton.1 among]
      rfl) (by decide)⟩
  have other := @run_next _ _ (.newObject 4 (.jsObject 1 [] .plain)) made
    ⟨rfl, fields_of (fun t same => by cases same) (fun ptr among => by
      rw [List.mem_singleton.1 among]
      rfl) (by decide)⟩
  have held := @run_next _ _ (.dup 4) other (.root (by decide))
  have looped := @run_next _ _ (.write 4 (.jsObject 1 [.value (.object 4)] .plain)) held
    ⟨.root (by decide), rfl, fields_of (fun t same => by cases same) (fun ptr among => by
      rcases List.mem_cons.1 among with rfl | later
      · intro q found
        cases found
        rfl
      · rw [List.mem_singleton.1 later]
        rfl) (by decide)⟩
  have dropped := @run_next _ _ (.free (.object 4)) looped
    ⟨fun q found => by cases found; rfl, fun q found => by cases found; decide⟩
  have referred := @run_next _ _ (.dup 2) dropped (.root (by decide))
  have context := @run_next _ _ (.newObject 3 (.jsContext [] [.object 2] none)) referred
    ⟨rfl, fields_of (fun t same => by cases same) (fun ptr among => by
      rw [List.mem_singleton.1 among]
      intro q found
      cases found
      rfl) (by decide)⟩
  exact ⟨_, context⟩

theorem referredGlobal_holding : Holding (fun p => if p = 2 then 1 else 0) 2 referredGlobal := by
  refine ⟨fun p => ?_, 3, by decide, by decide⟩
  by_cases same : p = 2
  · rw [same]
    decide
  · simp [same]

theorem referredGlobal_listed : referredGlobal.rt.gcObjList = [1, 2, 4, 3] := by decide

theorem referredGlobal_mirrors : Mirrors (fun p => if p = 2 then 1 else 0) (fun _ => False)
    referredGlobal referredWorld := by
  obtain ⟨cs, run⟩ := referredGlobal_run
  have listed : ∀ p, referredGlobal.rt.heap p ≠ none → p ∈ [1, 2, 4, 3] := by
    intro p there
    rw [← referredGlobal_listed]
    exact ((sound_run run).balanced.listed p).2 (heap_ne_none.1 there)
  refine ⟨fun p there => ?_, fun p there => .inl ?_, referredGlobal_holding⟩
  · have known := listed p there
    simp only [List.mem_cons, List.not_mem_nil, or_false] at known
    rcases known with rfl | rfl | rfl | rfl <;> exact ⟨_, rfl, by decide, by decide⟩
  · have known : p ∈ [1, 2, 4, 3] := by
      by_contra other
      simp only [List.mem_cons, List.not_mem_nil, or_false, not_or] at other
      exact there (by simp [referredWorld, World.setCell, World.fresh, other])
    simp only [List.mem_cons, List.not_mem_nil, or_false] at known
    rcases known with rfl | rfl | rfl | rfl <;> decide

theorem referredGlobal_unreached : ¬ ReachedFrom referredGlobal.outside referredGlobal.rt 4 := by
  obtain ⟨cs, run⟩ := referredGlobal_run
  intro reached
  have others : (4 : Addr) ∈ [1, 2, 3] := by
    refine reached_least (fun q => q ∈ [1, 2, 3]) (fun q root => ?_) (fun q here r edge => ?_) reached
    · have there := (sound_run run).balanced.held q root
      rw [referredGlobal_listed] at there
      simp only [List.mem_cons, List.not_mem_nil, or_false] at there
      rcases there with rfl | rfl | rfl | rfl
      · decide
      · decide
      · have none : referredGlobal.outside 4 = 0 := by decide
        omega
      · decide
    · simp only [List.mem_cons, List.not_mem_nil, or_false] at here
      rcases here with rfl | rfl | rfl
      · cases edge
      · cases List.mem_singleton.1 edge
        decide
      · cases List.mem_singleton.1 edge
        decide
  simp at others

/-- The object that nothing refers to goes, and the global object stays what it was. -/
theorem commands_mirrored_collection : ∃ (m' : Machine) (w' : World), exec .runGC referredGlobal = some m' ∧
    w'.heap 4 = none ∧ (w'.heap 2).map Cell.serial = some 0 ∧ w'.globalObj = 2 := by
  obtain ⟨cs, run⟩ := referredGlobal_run
  obtain ⟨m', acts, collected, outside, -⟩ := sound_runGC (sound_run run)
  have holding : Holding (fun p => if p = 2 then 1 else 0) 2 m' := by
    obtain ⟨held, ctx, root, holds⟩ := referredGlobal_holding
    refine ⟨by rw [outside]; exact held, ctx, by rw [outside]; exact root, ?_⟩
    rw [Machine.refs, refsOf, (collected.reached ctx (.root root)).1]
    exact holds
  obtain ⟨es, w', follows, mirrors⟩ := @commands_mirrored _ _ _ _ _ (fun _ => none) _ [.runGC] run
    referredGlobal_mirrors (.step trivial (fun p d same => by cases same) acts holding .done)
  have gone : w'.heap 4 = none := by
    by_contra there
    rcases mirrors.apart 4 there with kept | impossible
    · exact heap_ne_none.1 kept (collected.unreached 4 referredGlobal_unreached)
    · exact impossible
  exact ⟨m', w', acts, gone, follows.serials 2 (by decide), follows.globalObj⟩

end Simulation
end QuickJSBridge.Collector
