import QuickJSBridge.TextMarshalling

/- Reference accounting. Every reference someone relies on (the engine's own, the one of the
   exception slot, the one under each key of `values`, and those that running or suspended
   native code holds) is covered by the count of the allocation. -/
namespace QuickJSBridge
open HostProgram ReentrantMachine

def one (p : Addr) : Addr → Nat := fun q => if q = p then 1 else 0

def owned (v : JSValue) : Addr → Nat := fun q => if v.addr? = some q then 1 else 0

theorem owned_of_addr {v : JSValue} {p : Addr} (counted : v.addr? = some p) : owned v = one p := by
  funext q
  simp only [owned, one, counted, Option.some.injEq, eq_comm]

theorem owned_of_none {v : JSValue} (uncounted : v.addr? = none) : owned v = 0 := by
  funext q
  simp [owned, uncounted]

@[simp] theorem owned_object (p : Addr) : owned (.object p) = one p := owned_of_addr rfl
@[simp] theorem owned_undefined : owned .undefined = 0 := owned_of_none rfl
@[simp] theorem owned_exception : owned .exception = 0 := owned_of_none rfl
@[simp] theorem owned_null : owned .null = 0 := owned_of_none rfl

namespace World

def refs (w : World) (p : Addr) : Nat := ((w.heap p).map Cell.refCount).getD 0
def engineRefs (w : World) (p : Addr) : Nat := ((w.heap p).map Cell.heapRefs).getD 0
def valuesRefs (w : World) (p : Addr) : Nat := if w.values p then 1 else 0

def Denotes (w : World) (h : Handle) : Prop :=
  ∃ c, w.heap h.pointer = some c ∧ c.serial = h.serial

structure SameStore (w w' : World) : Prop where
  globalObj : w'.globalObj = w.globalObj
  values : w'.values = w.values
  handles : w'.handles = w.handles
  queue : w'.unhandledRejections = w.unhandledRejections
  serials : ∀ q c, w.heap q = some c → 0 < w'.refs q →
    ∃ c', w'.heap q = some c' ∧ c'.serial = c.serial

end World

structure Kept (held : Addr → Nat) (w : World) : Prop where
  covered : ∀ p, w.engineRefs p + owned w.exception p + w.valuesRefs p + held p ≤ w.refs p
  global : ∀ p, w.reserved p ≤ w.engineRefs p
  queue : w.unhandledRejections = []
  /-- Handles that operations made and that were not freed. -/
  handles : ∀ h ∈ w.handles, h.borrowed = false → h.freed = false →
    (h.pointer = w.globalObj ∨ w.values h.pointer = true) ∧ w.Denotes h

/-- Every handle an operation made for Java denotes its object until it is freed. -/
def HandlesLive (w : World) : Prop :=
  ∀ h ∈ w.handles, h.borrowed = false → h.freed = false → w.Denotes h

theorem freed_or_same {hs : List Handle} {id : Nat} {h : Handle}
    (member : h ∈ hs.modify id fun h => { h with freed := true }) (unfreed : h.freed = false) :
    h ∈ hs := by
  induction hs generalizing id with
  | nil => cases id <;> cases member
  | cons first rest ih =>
    cases id with
    | zero =>
      rcases List.mem_cons.1 member with rfl | later
      · cases unfreed
      · exact List.mem_cons_of_mem _ later
    | succ id =>
      rcases List.mem_cons.1 member with rfl | later
      · exact List.mem_cons_self
      · exact List.mem_cons_of_mem _ (ih later)

section Accounting
variable {held held' : Addr → Nat} {w w' : World}

theorem kept_live (kept : Kept held w) : HandlesLive w := fun h member mine unfreed =>
  (kept.handles h member mine unfreed).2

theorem kept_weaken (fewer : ∀ p, held' p ≤ held p) (kept : Kept held w) : Kept held' w where
  covered p := by
    have enough := kept.covered p
    have less := fewer p
    omega
  global := kept.global
  queue := kept.queue
  handles := kept.handles

theorem kept_recount (kept : Kept held w) (same : w.SameStore w')
    (covered : ∀ p, w'.engineRefs p + owned w'.exception p + w.valuesRefs p + held' p ≤ w'.refs p)
    (global : ∀ p, w.reserved p ≤ w'.engineRefs p) : Kept held' w' where
  covered p := by
    have enough := covered p
    unfold World.valuesRefs at enough ⊢
    rw [same.values]
    exact enough
  global p := by
    unfold World.reserved
    rw [same.globalObj]
    exact global p
  queue := same.queue.trans kept.queue
  handles h member mine unfreed := by
    rw [same.handles] at member
    obtain ⟨held, c, here, serial⟩ := kept.handles h member mine unfreed
    have enough := covered h.pointer
    have counted : 0 < w'.refs h.pointer := by
      rcases held with atGlobal | kept
      · have reserved := global h.pointer
        rw [World.reserved, if_pos atGlobal] at reserved
        omega
      · rw [World.valuesRefs, if_pos kept] at enough
        omega
    obtain ⟨c', here', serial'⟩ := same.serials _ c here counted
    rw [same.globalObj, same.values]
    exact ⟨held, c', here', serial'.trans serial⟩

theorem kept_congr (kept : Kept held w) (heap : w'.heap = w.heap)
    (global : w'.globalObj = w.globalObj) (exception : w'.exception = w.exception)
    (values : w'.values = w.values) (handles : w'.handles = w.handles)
    (queue : w'.unhandledRejections = w.unhandledRejections) : Kept held w' where
  covered p := by
    have enough := kept.covered p
    unfold World.engineRefs World.refs World.valuesRefs at enough ⊢
    rw [heap, exception, values]
    exact enough
  global p := by
    have enough := kept.global p
    unfold World.engineRefs World.reserved at enough ⊢
    rw [heap, global]
    exact enough
  queue := queue.trans kept.queue
  handles h member mine unfreed := by
    rw [handles] at member
    have there := kept.handles h member mine unfreed
    unfold World.Denotes at there ⊢
    rw [heap, global, values]
    exact there

section Cells
variable {p : Addr} {c : Cell}

@[simp] theorem exception_setCell (w : World) (p : Addr) (c : Option Cell) :
    (w.setCell p c).exception = w.exception := rfl

theorem refs_setCell (w : World) (p q : Addr) (c : Cell) :
    (w.setCell p (some c)).refs q = if q = p then c.refCount else w.refs q := by
  unfold World.refs World.setCell
  by_cases same : q = p
  · subst same; simp
  · simp [same]

theorem engineRefs_setCell (w : World) (p q : Addr) (c : Cell) :
    (w.setCell p (some c)).engineRefs q = if q = p then c.heapRefs else w.engineRefs q := by
  unfold World.engineRefs World.setCell
  by_cases same : q = p
  · subst same; simp
  · simp [same]

theorem refs_of_cell (here : w.heap p = some c) : w.refs p = c.refCount := by
  simp [World.refs, here]

theorem engineRefs_of_cell (here : w.heap p = some c) : w.engineRefs p = c.heapRefs := by
  simp [World.engineRefs, here]

theorem sameStore_setCell (here : w.heap p = some c) (c' : Cell) (serial : c'.serial = c.serial) :
    w.SameStore (w.setCell p (some c')) where
  globalObj := rfl
  values := rfl
  handles := rfl
  queue := rfl
  serials q d there _ := by
    by_cases same : q = p
    · subst same
      cases here.symm.trans there
      exact ⟨c', by simp [World.setCell], serial⟩
    · exact ⟨d, by simp [World.setCell, same, there], rfl⟩

theorem kept_setCell (kept : Kept held w) (here : w.heap p = some c) (c' : Cell)
    (serial : c'.serial = c.serial)
    (covered : c'.heapRefs + owned w.exception p + w.valuesRefs p + held' p ≤ c'.refCount)
    (others : ∀ q, q ≠ p → held' q ≤ held q)
    (global : w.reserved p ≤ c'.heapRefs) : Kept held' (w.setCell p (some c')) := by
  refine kept_recount kept (sameStore_setCell here c' serial) (fun q => ?_) (fun q => ?_)
  · rw [refs_setCell, engineRefs_setCell]
    by_cases same : q = p
    · subst same
      rw [if_pos rfl, if_pos rfl]
      exact covered
    · have enough := kept.covered q
      have less := others q same
      simp only [same, if_false]
      change w.engineRefs q + owned w.exception q + w.valuesRefs q + held' q ≤ w.refs q
      omega
  · rw [engineRefs_setCell]
    by_cases same : q = p
    · subst same
      simpa using global
    · simpa [same] using kept.global q

end Cells

section Moves
variable {p : Addr} {v : JSValue}

@[simp] theorem one_self (p : Addr) : one p p = 1 := by simp [one]
theorem one_other {p q : Addr} (other : q ≠ p) : one p q = 0 := by simp [one, other]

theorem kept_retain (kept : Kept held w) (step : w.retain p = some w') :
    Kept (held + one p) w' := by
  obtain ⟨c, here, rfl⟩ := Option.map_eq_some_iff.1 step
  have enough := kept.covered p
  have reserved := kept.global p
  rw [refs_of_cell here, engineRefs_of_cell here] at enough
  rw [engineRefs_of_cell here] at reserved
  refine kept_setCell kept here _ rfl ?_ (fun q other => ?_) reserved
  · simp only [Pi.add_apply, one_self]
    omega
  · simp [one_other other]

theorem kept_toHeap (kept : Kept (held + one p) w) (step : w.toHeap p = some w') :
    Kept held w' := by
  obtain ⟨c, here, rfl⟩ := Option.map_eq_some_iff.1 step
  have enough := kept.covered p
  have reserved := kept.global p
  rw [refs_of_cell here, engineRefs_of_cell here, Pi.add_apply, one_self] at enough
  rw [engineRefs_of_cell here] at reserved
  refine kept_setCell kept here _ rfl ?_ (fun q other => ?_) ?_
  · dsimp only
    omega
  · simp [one_other other]
  · dsimp only
    omega

theorem kept_toNative (kept : Kept held w) (step : w.toNative p = some w') :
    Kept (held + one p) w' := by
  obtain ⟨c, here, step⟩ := Option.bind_eq_some_iff.1 step
  split at step
  next spare =>
    cases step
    have enough := kept.covered p
    rw [refs_of_cell here, engineRefs_of_cell here] at enough
    refine kept_setCell kept here _ rfl ?_ (fun q other => ?_) ?_
    · simp only [Pi.add_apply, one_self]
      omega
    · simp [one_other other]
    · dsimp only
      omega
  next => cases step

theorem kept_dup (kept : Kept held w) (step : w.dup p = some w') : Kept held w' := by
  obtain ⟨c, here, rfl⟩ := Option.map_eq_some_iff.1 step
  have enough := kept.covered p
  have reserved := kept.global p
  rw [refs_of_cell here, engineRefs_of_cell here] at enough
  rw [engineRefs_of_cell here] at reserved
  refine kept_setCell kept here _ rfl ?_ (fun _ _ => Nat.le_refl _) ?_
  · dsimp only
    omega
  · dsimp only
    omega

theorem kept_revokeProxy (kept : Kept held w) (step : w.revokeProxy p = some w') :
    Kept held w' := by
  obtain ⟨c, here, step⟩ := Option.bind_eq_some_iff.1 step
  split at step
  next =>
    cases step
    have enough := kept.covered p
    have reserved := kept.global p
    rw [refs_of_cell here, engineRefs_of_cell here] at enough
    rw [engineRefs_of_cell here] at reserved
    exact kept_setCell kept here _ rfl enough (fun _ _ => Nat.le_refl _) reserved
  next => cases step

theorem kept_alloc {cls : Option ObjectClass} (kept : Kept held w)
    (step : w.alloc p cls = some w') : Kept held w' := by
  unfold World.alloc at step
  split at step
  next => cases step
  next free =>
    cases step
    simp only [not_or, Bool.not_eq_true, Option.isSome_eq_false_iff, Option.isNone_iff_eq_none]
      at free
    have none_refs : w.refs p = 0 := by simp [World.refs, free.2]
    have enough := kept.covered p
    have not_global : w.reserved p = 0 := by
      have reserved := kept.global p
      omega
    have moved : Kept held (w.setCell p (some ⟨w.nextSerial, cls, 1, 1, none⟩)) := by
      refine kept_recount kept ⟨rfl, rfl, rfl, rfl, fun q c there _ => ?_⟩ (fun q => ?_)
        (fun q => ?_)
      · have other : q ≠ p := by
          rintro rfl
          cases free.2.symm.trans there
        exact ⟨c, by simp [World.setCell, other, there], rfl⟩
      · rw [refs_setCell, engineRefs_setCell]
        by_cases same : q = p
        · subst same
          simp only [if_true]
          change 1 + owned w.exception q + w.valuesRefs q + held q ≤ 1
          omega
        · simpa [same] using kept.covered q
      · rw [engineRefs_setCell]
        by_cases same : q = p
        · subst same
          simp [not_global]
        · simpa [same] using kept.global q
    exact kept_congr moved rfl rfl rfl rfl rfl rfl

theorem kept_release (kept : Kept (held + one p) w) (step : w.release p = some w') :
    Kept held w' := by
  obtain ⟨c, here, rfl⟩ := Option.map_eq_some_iff.1 step
  have enough := kept.covered p
  have reserved := kept.global p
  rw [refs_of_cell here, engineRefs_of_cell here, Pi.add_apply, one_self] at enough
  rw [engineRefs_of_cell here] at reserved
  split
  next last =>
    have gone : Kept held (w.setCell p none) := by
      have emptied : ∀ q, (w.setCell p none).refs q = if q = p then 0 else w.refs q := by
        intro q
        unfold World.refs World.setCell
        by_cases same : q = p
        · subst same; simp
        · simp [same]
      have emptied' : ∀ q,
          (w.setCell p none).engineRefs q = if q = p then 0 else w.engineRefs q := by
        intro q
        unfold World.engineRefs World.setCell
        by_cases same : q = p
        · subst same; simp
        · simp [same]
      refine kept_recount kept ⟨rfl, rfl, rfl, rfl, fun q d there counted => ?_⟩ (fun q => ?_)
        (fun q => ?_)
      · rw [emptied] at counted
        by_cases same : q = p
        · simp [same] at counted
        · exact ⟨d, by simp [World.setCell, same, there], rfl⟩
      · rw [emptied, emptied']
        by_cases same : q = p
        · subst same
          simp only [if_true]
          change 0 + owned w.exception q + w.valuesRefs q + held q ≤ 0
          omega
        · have others := kept.covered q
          simp only [Pi.add_apply, one_other same] at others
          simpa [same] using others
      · rw [emptied']
        by_cases same : q = p
        · subst same
          simp only [if_true]
          omega
        · simpa [same] using kept.global q
    unfold World.jsFuncCallbackFinalizer
    split
    next => exact gone
    next =>
      dsimp only
      split
      · exact kept_congr gone rfl rfl rfl rfl rfl rfl
      · exact kept_congr gone rfl rfl rfl rfl rfl rfl
  next more =>
    refine kept_setCell kept here _ rfl ?_ (fun q other => ?_) reserved
    · dsimp only
      omega
    · simp [one_other other]

theorem kept_drop (kept : Kept held w) (step : w.drop p = some w') : Kept held w' := by
  obtain ⟨u, taken, gone⟩ := Option.bind_eq_some_iff.1 step
  exact kept_release (kept_toNative kept taken) gone

theorem kept_onValue {step : World → Addr → Option World} {f g : (Addr → Nat) → Addr → Nat}
    (moves : ∀ held p w w', Kept (held + f (one p)) w → step w p = some w' →
      Kept (held + g (one p)) w')
    (still : f 0 = 0 ∧ g 0 = 0) (kept : Kept (held + f (owned v)) w)
    (taken : w.onValue step v = some w') : Kept (held + g (owned v)) w' := by
  unfold World.onValue at taken
  split at taken
  next uncounted =>
    cases taken
    rw [owned_of_none uncounted, still.1] at kept
    rw [owned_of_none uncounted, still.2]
    exact kept
  next q counted =>
    rw [owned_of_addr counted] at kept ⊢
    exact moves held q w w' kept taken

theorem kept_give (kept : Kept held w) (taken : w.onValue World.toNative v = some w') :
    Kept (held + owned v) w' :=
  kept_onValue (f := fun _ => 0) (g := id)
    (fun held p w w' kept step => kept_toNative (by simpa using kept) step) ⟨rfl, rfl⟩
    (by simpa using kept) taken

theorem kept_take (kept : Kept (held + owned v) w) (taken : w.onValue World.toHeap v = some w') :
    Kept held w' := by
  simpa using kept_onValue (f := id) (g := fun _ => 0)
    (fun held p w w' kept step => by simpa using kept_toHeap kept step) ⟨rfl, rfl⟩ kept taken

theorem kept_free (kept : Kept (held + owned v) w) (taken : w.onValue World.release v = some w') :
    Kept held w' := by
  simpa using kept_onValue (f := id) (g := fun _ => 0)
    (fun held p w w' kept step => by simpa using kept_release kept step) ⟨rfl, rfl⟩ kept taken

theorem kept_dupValue (kept : Kept held w) (taken : w.onValue World.retain v = some w') :
    Kept (held + owned v) w' :=
  kept_onValue (f := fun _ => 0) (g := id)
    (fun held p w w' kept step => kept_retain (by simpa using kept) step) ⟨rfl, rfl⟩
    (by simpa using kept) taken

theorem kept_setException (kept : Kept (held + owned v) w) :
    Kept (held + owned w.exception) { w with exception := v } := by
  refine kept_recount kept ⟨rfl, rfl, rfl, rfl, fun q c there _ => ⟨c, there, rfl⟩⟩
    (fun p => ?_) kept.global
  have enough := kept.covered p
  rw [Pi.add_apply] at enough ⊢
  change w.engineRefs p + owned v p + w.valuesRefs p + (held p + owned w.exception p) ≤ w.refs p
  omega

theorem kept_getException (kept : Kept held w) :
    Kept (held + owned w.exception) { w with exception := .null } :=
  kept_setException (by simpa using kept)

theorem kept_throwValue (kept : Kept held w) (step : w.throwValue v = some w') :
    Kept held w' := by
  obtain ⟨u, taken, freed⟩ := Option.bind_eq_some_iff.1 step
  have same : u.exception = w.exception := by
    unfold World.onValue at taken
    split at taken
    next => cases taken; rfl
    next q _ =>
      obtain ⟨c, _, taken⟩ := Option.bind_eq_some_iff.1 taken
      split at taken
      · cases taken; rfl
      · cases taken
  have swapped := kept_setException (kept_give kept taken)
  rw [same] at swapped
  exact kept_free swapped freed

theorem kept_catchException (kept : Kept held w) (step : w.catchException = some w') :
    Kept held w' :=
  kept_take (kept_getException kept) step

end Moves
end Accounting
end QuickJSBridge
