import QuickJSBridge.ProofOutlines
import QuickJSBridge.StdEvaluation
import QuickJSBridge.BridgeMachine

/- The counter of nested evaluations and the interrupt handler. Every activation of
   js_evalScript and js_evalModule has a proof outline over the frames below it, so the two
   agree with the number of pending JS_Eval calls however the activations nest. -/
namespace QuickJSBridge.Libc
open HostProgram ReentrantMachine

abbrev LibcMark := Mark Call Op

section Frames

/-- Activations that are inside JS_Eval. -/
def insideEval : List LibcMark → Nat
  | [] => 0
  | .pending e :: rest => (if e.isEval then 1 else 0) + insideEval rest
  | .caller _ :: rest => insideEval rest

def usedBy : List LibcMark → List Nat
  | [] => []
  | .pending _ :: rest => usedBy rest
  | .caller o :: rest => o.used ++ usedBy rest

def Nested : List LibcMark → Prop
  | [] => True
  | .pending e :: .caller o :: rest => (e.isEval = true → o.isEvaluation = true) ∧ Nested rest
  | _ => False

theorem nested_nil : Nested [] := trivial

@[simp] theorem insideEval_caller (o : Op) (rest : List LibcMark) :
    insideEval (.caller o :: rest) = insideEval rest := rfl

theorem insideEval_eval {e : Call} (rest : List LibcMark) (eval : e.isEval = true) :
    insideEval (.pending e :: rest) = insideEval rest + 1 := by
  simp [insideEval, eval, Nat.add_comm]

theorem insideEval_other {e : Call} (rest : List LibcMark) (other : e.isEval = false) :
    insideEval (.pending e :: rest) = insideEval rest := by
  simp [insideEval, other]

theorem used_evaluation {o : Op} (evaluation : o.isEvaluation = true) : ∃ used, o.used = [used] := by
  cases o with
  | evalScript used argv => exact ⟨used, rfl⟩
  | evalModule used argv => exact ⟨used, rfl⟩
  | _ => cases evaluation

theorem used_other {o : Op} (other : o.isEvaluation = false) : o.used = [] := by
  cases o with
  | evalScript used argv => cases other
  | evalModule used argv => cases other
  | _ => rfl

theorem insideEval_le {frames : List LibcMark} (nested : Nested frames) :
    insideEval frames ≤ (usedBy frames).length := by
  match frames, nested with
  | [], _ => exact Nat.zero_le _
  | .pending e :: .caller o :: rest, ⟨evaluates, nested⟩ =>
    have below := insideEval_le nested
    simp only [insideEval, usedBy, List.length_append]
    split
    next eval =>
      obtain ⟨used, alone⟩ := used_evaluation (evaluates eval)
      rw [alone]
      simp only [List.length_singleton]
      omega
    next => omega

end Frames

section Counter

theorem length_le_bound {stack : List Nat} {bound : Nat} (descending : stack.Pairwise (· > ·))
    (bounded : ∀ used ∈ stack, used ≤ bound) : stack.length ≤ bound + 1 := by
  have distinct : stack.Nodup := descending.imp fun above => Nat.ne_of_gt above
  have within : stack ⊆ List.range (bound + 1) := fun used member =>
    List.mem_range.2 (Nat.lt_succ_of_le (bounded used member))
  simpa using distinct.length_le_of_subset within

theorem toInt_succ {n : Int32} (room : n.toInt < 2 ^ 31 - 1) : (n + 1).toInt = n.toInt + 1 := by
  have low := n.le_toInt
  rw [Int32.toInt_add]
  exact Int.bmod_eq_of_le (by simp at low ⊢; omega) (by simp at room ⊢; omega)

theorem toInt_pred {n : Int32} (positive : 0 < n.toInt) : (n - 1).toInt = n.toInt - 1 := by
  have high := n.toInt_lt
  rw [Int32.toInt_sub]
  exact Int.bmod_eq_of_le (by simp; omega) (by simp at high ⊢; omega)

theorem eq_one_iff {n : Int32} : n = 1 ↔ n.toInt = 1 := by
  rw [← Int32.toInt_inj]
  rfl

theorem eq_zero_iff {n : Int32} : n = 0 ↔ n.toInt = 0 := by
  rw [← Int32.toInt_inj]
  rfl

end Counter
section Books

/-- The counter, the handler and the C stack, at a point where `count` evaluations are
    counted and the handler has been installed or not. -/
structure Books (frames : List LibcMark) (count : Nat) (installed : Bool) (s : Runtime) : Prop where
  slot : s.slot = some .threadState
  mainThread : s.threadState.recvPipe = none
  recurse : s.threadState.evalScriptRecurse.toInt = count
  handler : s.interruptHandler = if installed then some .interruptHandler else none
  cStack : s.cStack = usedBy frames
  descending : s.cStack.Pairwise (· > ·)
  bounded : ∀ used ∈ s.cStack, used ≤ JS_DEFAULT_STACK_SIZE

abbrev Ready (below : List LibcMark) (o : Op) : Runtime → Prop :=
  Books (.caller o :: below) (insideEval below) (0 < insideEval below)

def Prim.leaves : Prim → Prop
  | .setInterruptHandler none | .clearPending _ | .resetUncatchableError => True
  | _ => False

/-- The operation on top is the outermost evaluation, its JS_Eval has returned and the
    counter has come back to zero; it enters no more JS code. -/
structure Ends (frames : List LibcMark) (p : Program Answer) (s : Runtime) : Prop where
  evaluation : ∃ o below, frames = .caller o :: below ∧ o.isEvaluation = true
  outermost : insideEval frames = 0
  counted : s.threadState.evalScriptRecurse = 0
  leaving : p.Within Prim.leaves fun _ => False

def Prim.undoes : Prim → Bool
  | .setInterruptHandler none | .clearPending _ => true
  | _ => false

structure During (frames : List LibcMark) (p : Program Answer) (s : Runtime) : Prop where
  counted : s.threadState.evalScriptRecurse.toInt = insideEval frames ∨
    s.threadState.evalScriptRecurse.toInt = insideEval frames + 1
  installed : 0 < insideEval frames → s.interruptHandler = some .interruptHandler
  defined : ∀ c next, p = .prim c next → (exec c s).isSome
  undone : ∀ c next, p = .prim c next → c.undoes = true →
    Ends frames p s ∨ c ≠ .setInterruptHandler none ∧ frames = [.caller .osPoll]

def discipline : Discipline Runtime Prim Call Answer Op where
  outside frames s := Nested frames ∧ Books frames (insideEval frames) (0 < insideEval frames) s
  inside := During

abbrev Outlined (below : List LibcMark) (o : Op) (p : Program Answer) (Q : Runtime → Prop) : Prop :=
  libc.Outline osSignalHandler discipline below o p Q

variable {frames below : List LibcMark} {o : Op} {count : Nat} {installed : Bool} {s : Runtime}

theorem books_arrival (sigNum : Fin 64) (books : Books frames count installed s) :
    Books frames count installed (osSignalHandler sigNum s) :=
  ⟨books.slot, books.mainThread, books.recurse, books.handler, books.cStack, books.descending,
    books.bounded⟩

theorem stable_books : Bridge.Stable osSignalHandler (Books frames count installed) :=
  fun sigNum _ books => books_arrival sigNum books

@[simp] theorem deref_threadState (s : Runtime) :
    s.deref (some .threadState) = some s.threadState := rfl

structure Counts (below : List LibcMark) (count : Nat) (installed : Bool) : Prop where
  own : count = insideEval below ∨ count = insideEval below + 1
  kept : 0 < insideEval below → installed = true

theorem counts_ready (below : List LibcMark) :
    Counts below (insideEval below) (0 < insideEval below) :=
  ⟨Or.inl rfl, fun inside => decide_eq_true inside⟩

theorem counts_begun (below : List LibcMark) : Counts below (insideEval below + 1) true :=
  ⟨Or.inr rfl, fun _ => rfl⟩

theorem during_books {p : Program Answer} (books : Books (.caller o :: below) count installed s)
    (counts : Counts below count installed)
    (defined : ∀ c next, p = .prim c next → (exec c s).isSome)
    (undone : ∀ c next, p = .prim c next → c.undoes = true → Ends (.caller o :: below) p s ∨
      c ≠ .setInterruptHandler none ∧ Mark.caller o :: below = [.caller .osPoll]) :
    During (.caller o :: below) p s where
  counted := by
    have own := counts.own
    rw [books.recurse, insideEval_caller]
    omega
  installed inside := by
    rw [books.handler, counts.kept inside]
    rfl
  defined := defined
  undone := undone

end Books

section Outlines
variable {below : List LibcMark} {o : Op} {count count' : Nat} {installed installed' : Bool}

theorem finish_ready (a : Answer) {s s' : Runtime} (nested : Nested below)
    (ready : Ready below o s) (ends : finish o a s = some s') : discipline.outside below s' := by
  unfold finish at ends
  split at ends
  next evaluation =>
    cases ends
    obtain ⟨used, alone⟩ := used_evaluation evaluation
    have popped : s.cStack = used :: usedBy below := by
      rw [ready.cStack, usedBy, alone]
      rfl
    refine ⟨nested, ready.slot, ready.mainThread, ready.recurse, ready.handler, ?_, ?_, ?_⟩
    · simp [popped]
    · exact ready.descending.tail
    · exact fun used member => ready.bounded used (List.mem_of_mem_tail member)
  next other =>
    cases ends
    have same : s.cStack = usedBy below := by
      rw [ready.cStack, usedBy, used_other (by simpa using other)]
      rfl
    exact ⟨nested, ready.slot, ready.mainThread, ready.recurse, ready.handler, same,
      ready.descending, ready.bounded⟩

theorem outline_ret (nested : Nested below) (a : Answer) :
    Outlined below o (.ret a) (Ready below o) := by
  refine ⟨stable_books, fun s ready => ?_, fun s s' ready ends => finish_ready a nested ready ends⟩
  exact during_books ready (counts_ready below) (fun _ _ same => nomatch same)
    fun _ _ same => nomatch same

theorem outline_prim {c : Prim} {next : Answer → Program Answer} (fact : Answer → Prop)
    (counts : Counts below count installed)
    (undone : c.undoes = true → ∀ s, Books (.caller o :: below) count installed s →
      Ends (.caller o :: below) (.prim c next) s ∨
        c ≠ .setInterruptHandler none ∧ Mark.caller o :: below = [.caller .osPoll])
    (acts : ∀ s, Books (.caller o :: below) count installed s → ∃ a s', exec c s = some (a, s') ∧
      Books (.caller o :: below) count' installed' s' ∧ fact a)
    (rest : ∀ a, fact a →
      Outlined below o (next a) (Books (.caller o :: below) count' installed')) :
    Outlined below o (.prim c next) (Books (.caller o :: below) count installed) := by
  have facts_stable : ∀ a, Bridge.Stable osSignalHandler fun s =>
      Books (.caller o :: below) count' installed' s ∧ fact a :=
    fun a sigNum s here => ⟨books_arrival sigNum here.1, here.2⟩
  refine ⟨stable_books, fun s books => ?_,
    fun a s => Books (.caller o :: below) count' installed' s ∧ fact a, ?_, ?_⟩
  · apply during_books books counts
    · intro c' next' same
      cases same
      obtain ⟨a, s', runs, -⟩ := acts s books
      rw [runs]
      rfl
    · intro c' next' same undoes
      cases same
      exact undone undoes s books
  · intro s a s' books runs
    obtain ⟨a', t, runs', after⟩ := acts s books
    cases runs.symm.trans runs'
    exact after
  · rintro a ⟨s, books, here⟩
    exact Bridge.outline_weaken (rest a here) (facts_stable a) fun _ now => now.1

theorem outline_read {c : Prim} {next : Answer → Program Answer} (fact : Answer → Prop)
    (counts : Counts below count installed) (reads : c.undoes = false)
    (answers : ∀ s, Books (.caller o :: below) count installed s → ∃ a, exec c s = some (a, s) ∧
      fact a)
    (rest : ∀ a, fact a →
      Outlined below o (next a) (Books (.caller o :: below) count installed)) :
    Outlined below o (.prim c next) (Books (.caller o :: below) count installed) := by
  apply outline_prim fact counts (fun undoes => ?_) (fun s books => ?_) rest
  · rw [reads] at undoes
    cases undoes
  · obtain ⟨a, runs, here⟩ := answers s books
    exact ⟨a, s, runs, books, here⟩

theorem deliver_same {e : Call} {a : Answer} {s s' : Runtime} (answers : deliver e a s = some s') :
    s' = s := by
  unfold deliver at answers
  split at answers
  next =>
    split at answers <;> cases answers
    rfl
  all_goals cases answers
  all_goals rfl

theorem books_frames {frames frames' : List LibcMark} {s : Runtime}
    (books : Books frames count installed s) (same : usedBy frames' = usedBy frames) :
    Books frames' count installed s :=
  ⟨books.slot, books.mainThread, books.recurse, books.handler, books.cStack.trans same.symm,
    books.descending, books.bounded⟩

theorem outline_call {e : Call} {next : Answer → Program Answer} (nested : Nested below)
    (other : e.isEval = false) (rest : ∀ a, Outlined below o (next a) (Ready below o)) :
    Outlined below o (.enter e next) (Ready below o) := by
  have count : insideEval (.pending e :: .caller o :: below) = insideEval below :=
    insideEval_other _ other
  refine ⟨stable_books, fun s ready => ?_, ?_, fun _ => Ready below o, ?_, fun a _ => rest a⟩
  · exact during_books ready (counts_ready below) (fun _ _ same => nomatch same)
      fun _ _ same => nomatch same
  · intro s s' ready leaves
    cases leaves
    refine ⟨⟨fun eval => ?_, nested⟩, ?_⟩
    · rw [other] at eval
      cases eval
    · rw [count]
      exact books_frames ready rfl
  · rintro s a s' ⟨-, books⟩ answers
    cases deliver_same answers
    rw [count] at books
    exact books_frames books rfl

theorem outline_eval {e : Call} {next : Answer → Program Answer} (nested : Nested below)
    (evaluation : o.isEvaluation = true) (eval : e.isEval = true)
    (rest : ∀ a, Outlined below o (next a)
      (Books (.caller o :: below) (insideEval below + 1) true)) :
    Outlined below o (.enter e next) (Books (.caller o :: below) (insideEval below + 1) true) := by
  have count : insideEval (.pending e :: .caller o :: below) = insideEval below + 1 :=
    insideEval_eval _ eval
  have positive : decide (0 < insideEval below + 1) = true := by simp
  refine ⟨stable_books, fun s books => ?_, ?_,
    fun _ => Books (.caller o :: below) (insideEval below + 1) true, ?_, fun a _ => rest a⟩
  · exact during_books books (counts_begun below) (fun _ _ same => nomatch same)
      fun _ _ same => nomatch same
  · intro s s' books leaves
    cases leaves
    refine ⟨⟨fun _ => evaluation, nested⟩, ?_⟩
    rw [count, positive]
    exact books_frames books rfl
  · rintro s a s' ⟨-, books⟩ answers
    cases deliver_same answers
    rw [count, positive] at books
    exact books_frames books rfl

theorem read_recvPipe {frames : List LibcMark} {s : Runtime}
    (books : Books frames count installed s) :
    ∃ a, exec (.recvPipe (some .threadState)) s = some (a, s) ∧ a.toBool = false := by
  refine ⟨.bool false, ?_, rfl⟩
  simp [exec, books.mainThread]

theorem recurse_room {frames : List LibcMark} {s : Runtime} (books : Books frames count installed s)
    (deep : count ≤ (usedBy frames).length) :
    s.threadState.evalScriptRecurse.toInt < 2 ^ 31 - 1 := by
  have limit := length_le_bound books.descending books.bounded
  rw [books.cStack] at limit
  rw [books.recurse]
  unfold JS_DEFAULT_STACK_SIZE at limit
  omega

def Runtime.counting (s : Runtime) (f : Int32 → Int32) : Runtime :=
  { s with threadState := { s.threadState with
      evalScriptRecurse := f s.threadState.evalScriptRecurse } }

theorem exec_increment {frames : List LibcMark} {s : Runtime}
    (books : Books frames count installed s) (deep : count ≤ (usedBy frames).length) :
    ∃ a s', exec (.incrementRecurse (some .threadState)) s = some (a, s') ∧
      Books frames (count + 1) installed s' ∧ a.toInt.toInt = count + 1 := by
  have room := recurse_room books deep
  have below : s.threadState.evalScriptRecurse ≠ Int32.maxValue := by
    intro same
    rw [same, Int32.toInt_maxValue] at room
    omega
  have counted := toInt_succ room
  rw [books.recurse] at counted
  refine ⟨.int (s.threadState.evalScriptRecurse + 1), s.counting (· + 1), ?_, ?_, counted⟩
  · simp [exec, below, Runtime.counting]
  · exact ⟨books.slot, books.mainThread, counted.trans (by simp), books.handler, books.cStack,
      books.descending, books.bounded⟩

theorem exec_decrement {frames : List LibcMark} {s : Runtime}
    (books : Books frames (count + 1) installed s) :
    ∃ a s', exec (.decrementRecurse (some .threadState)) s = some (a, s') ∧
      Books frames count installed s' ∧ a.toInt.toInt = count := by
  have positive : 0 < s.threadState.evalScriptRecurse.toInt := by
    rw [books.recurse]
    omega
  have above : s.threadState.evalScriptRecurse ≠ Int32.minValue := by
    intro same
    rw [same, Int32.toInt_minValue] at positive
    omega
  have counted : (s.threadState.evalScriptRecurse - 1).toInt = count := by
    rw [toInt_pred positive, books.recurse]
    omega
  refine ⟨.int (s.threadState.evalScriptRecurse - 1), s.counting (· - 1), ?_, ?_, counted⟩
  · simp [exec, above, Runtime.counting]
  · exact ⟨books.slot, books.mainThread, counted, books.handler, books.cStack, books.descending,
      books.bounded⟩

theorem exec_setInterruptHandler {frames : List LibcMark} {s : Runtime} (now : Bool)
    (books : Books frames count installed s) :
    ∃ a s', exec (.setInterruptHandler (if now then some .interruptHandler else none)) s =
      some (a, s') ∧ Books frames count now s' ∧ True :=
  ⟨.unit, _, rfl, ⟨books.slot, books.mainThread, books.recurse, rfl, books.cStack,
    books.descending, books.bounded⟩, trivial⟩

theorem outline_beginEval {k : Unit → Program Answer} (nested : Nested below)
    (rest : Outlined below o (k ()) (Books (.caller o :: below) (insideEval below + 1) true)) :
    Outlined below o ((beginEval (some .threadState)).bind k) (Ready below o) := by
  have deep : insideEval below ≤ (usedBy (.caller o :: below)).length := by
    have inside := insideEval_le nested
    simp only [usedBy, List.length_append]
    omega
  apply outline_read (fun a => a.toBool = false) (counts_ready below) rfl
    (fun s ready => read_recvPipe ready)
  intro a main
  simp only [main, Prog.bind_eq, Prog.bind_ret, Bool.false_eq_true, if_false]
  apply outline_prim (fun a => a.toInt.toInt = insideEval below + 1) (counts_ready below)
    (fun undoes => by cases undoes) (fun s ready => exec_increment ready deep)
  intro a counted
  have counts : Counts below (insideEval below + 1) (0 < insideEval below) :=
    ⟨Or.inr rfl, (counts_ready below).kept⟩
  by_cases first : a.toInt = 1
  · simp only [first, decide_true, Prog.when_true, Prog.bind_ret]
    apply outline_prim (fun _ => True) counts (fun undoes => by cases undoes)
      (fun s books => exec_setInterruptHandler true books)
    exact fun _ _ => rest
  · have inside : 0 < insideEval below := by
      rw [eq_one_iff] at first
      omega
    simp only [first, decide_false, Prog.when_false, Prog.bind_ret]
    simpa [inside] using rest

theorem ends_books {p : Program Answer} {s : Runtime} (evaluation : o.isEvaluation = true)
    (outermost : insideEval below = 0) (books : Books (.caller o :: below) 0 installed s)
    (leaving : p.Within Prim.leaves fun _ => False) : Ends (.caller o :: below) p s :=
  ⟨⟨o, below, rfl, evaluation⟩, outermost, eq_zero_iff.2 books.recurse, leaving⟩

theorem outline_removeHandler {ret : JSValue} {a : Answer} (nested : Nested below)
    (evaluation : o.isEvaluation = true) (outermost : insideEval below = 0) :
    Outlined below o ((removeHandler ret).bind fun _ => .ret a)
      (Books (.caller o :: below) 0 true) := by
  have counts : ∀ installed, Counts below 0 installed := fun installed =>
    ⟨Or.inl outermost.symm, fun inside => by omega⟩
  have ready : Ready below o = Books (.caller o :: below) 0 false := by
    simp [Ready, outermost]
  have same : ∀ {c : Prim} {s : Runtime}, c = .clearPending SIGINT ∨ c = .resetUncatchableError →
      Books (.caller o :: below) 0 false s → ∃ a s', exec c s = some (a, s') ∧
        Books (.caller o :: below) 0 false s' ∧ True := by
    rintro c s (rfl | rfl) books
    all_goals exact ⟨.unit, _, rfl, ⟨books.slot, books.mainThread, books.recurse, books.handler,
      books.cStack, books.descending, books.bounded⟩, trivial⟩
  have last : ((act .resetUncatchableError).when ret.isException).bind (fun _ => .ret a) |>.Within
      Prim.leaves fun _ => False := by
    cases ret.isException with
    | true => exact ⟨trivial, fun _ => trivial⟩
    | false => trivial
  simp only [removeHandler, act, Prog.bind_eq, Prog.bind_prim, Prog.bind_ret]
  refine outline_prim (fun _ => True) (counts true) (fun _ s books => Or.inl ?_)
    (fun s books => exec_setInterruptHandler false books) fun _ _ => ?_
  · exact ends_books evaluation outermost books ⟨trivial, fun _ => ⟨trivial, fun _ => last⟩⟩
  refine outline_prim (fun _ => True) (counts false) (fun _ s books => Or.inl ?_)
    (fun s books => same (Or.inl rfl) books) fun _ _ => ?_
  · exact ends_books evaluation outermost books ⟨trivial, fun _ => last⟩
  cases ret.isException with
  | true =>
    apply outline_prim (fun _ => True) (counts false) (fun undoes => by cases undoes)
      (fun s books => same (Or.inr rfl) books)
    intro _ _
    rw [← ready]
    exact outline_ret nested a
  | false =>
    rw [← ready]
    exact outline_ret nested a

theorem outline_endEval {ret : JSValue} {a : Answer} (nested : Nested below)
    (evaluation : o.isEvaluation = true) :
    Outlined below o ((endEval (some .threadState) ret).bind fun _ => .ret a)
      (Books (.caller o :: below) (insideEval below + 1) true) := by
  apply outline_read (fun a => a.toBool = false) (counts_begun below) rfl
    (fun s books => read_recvPipe books)
  intro answer main
  simp only [main, Prog.bind_eq, Prog.bind_ret, Bool.false_eq_true, if_false]
  apply outline_prim (fun a => a.toInt.toInt = insideEval below) (counts_begun below)
    (fun undoes => by cases undoes) (fun s books => exec_decrement books)
  intro answer counted
  by_cases last : answer.toInt = 0
  · have outermost : insideEval below = 0 := by
      rw [eq_zero_iff] at last
      omega
    simp only [last, decide_true, Prog.when_true, Prog.bind_ret]
    rw [outermost]
    exact outline_removeHandler nested evaluation outermost
  · have inside : 0 < insideEval below := by
      rw [eq_zero_iff] at last
      omega
    have ready : Ready below o = Books (.caller o :: below) (insideEval below) true := by
      simp [Ready, inside]
    simp only [last, decide_false, Prog.when_false, Prog.bind_ret]
    rw [← ready]
    exact outline_ret nested a

theorem outline_evalText {filename : String} {str : List UInt8} {flags : Int32}
    (nested : Nested below) (evaluation : o.isEvaluation = true) :
    Outlined below o (evalText filename (some .threadState) str flags) (Ready below o) := by
  apply outline_beginEval nested
  apply outline_eval nested evaluation rfl
  intro a
  exact outline_endEval nested evaluation

theorem outline_getBoolOption {pbool : Int32} {obj : JSValue} {option : String}
    {k : Option Int32 → Program Answer} (nested : Nested below)
    (rest : ∀ flag, Outlined below o (k flag) (Ready below o)) :
    Outlined below o ((getBoolOption pbool obj option).bind k) (Ready below o) := by
  apply outline_call nested rfl
  intro a
  simp only [Prog.bind_eq, Prog.bind_ret]
  split
  · exact rest none
  split
  · exact rest (some pbool)
  apply outline_call nested rfl
  exact fun a => rest (some a.toInt)

theorem read_slot {frames : List LibcMark} {s : Runtime} (books : Books frames count installed s) :
    ∃ a, exec .getRuntimeOpaque s = some (a, s) ∧ a.toRecord = some .threadState :=
  ⟨.record s.slot, rfl, books.slot⟩

theorem outline_evalWithOption {filename : String} {type : Int32} {source : JSValue}
    (nested : Nested below) (evaluation : o.isEvaluation = true) (option : Option Int32) :
    Outlined below o (evalWithOption filename type (some .threadState) source option)
      (Ready below o) := by
  cases option with
  | none => exact outline_ret nested _
  | some backtraceBarrier =>
    apply outline_call nested rfl
    intro a
    simp only [Prog.bind_ret]
    cases a.toText with
    | none => exact outline_ret nested _
    | some str => exact outline_evalText nested evaluation

theorem outline_evalArguments {filename : String} {type : Int32} {argc : Nat} {argv : List JSValue}
    (nested : Nested below) (evaluation : o.isEvaluation = true) :
    Outlined below o (evalArguments filename type argc argv) (Ready below o) := by
  apply outline_read (fun a => a.toRecord = some .threadState) (counts_ready below) rfl
    (fun s ready => read_slot ready)
  intro a found
  simp only [Prog.bind_eq, Prog.bind_ret, found]
  split
  · exact outline_getBoolOption nested (outline_evalWithOption nested evaluation)
  · exact outline_evalWithOption nested evaluation (some 0)

theorem outline_pollHandlers (handlers : List SignalHandler) :
    Outlined [] .osPoll ((pollHandlers handlers).bind fun _ => .ret .unit) (Ready [] .osPoll) := by
  induction handlers with
  | nil => exact outline_ret nested_nil _
  | cons sh rest ih =>
    apply outline_read (fun _ => True) (counts_ready []) rfl
      (fun s _ => ⟨.bool (s.isPending sh.sigNum), rfl, trivial⟩)
    intro a _
    simp only [Prog.bind_eq, Prog.bind_ret]
    split
    next =>
      apply outline_prim (fun _ => True) (counts_ready []) (fun _ _ _ => Or.inr ⟨by simp, rfl⟩)
        (fun s ready => ⟨.unit, s.clearPending sh.sigNum, rfl, ⟨ready.slot, ready.mainThread,
          ready.recurse, ready.handler, ready.cStack, ready.descending, ready.bounded⟩, trivial⟩)
      intro _ _
      apply outline_call nested_nil rfl
      intro ret
      simp only [Prog.bind_ret]
      cases ret.toValue.isException with
      | true => exact outline_call nested_nil rfl fun _ => outline_ret nested_nil _
      | false => exact outline_ret nested_nil _
    next => exact ih

theorem outline_jsOsPollSignals : Outlined [] .osPoll jsOsPollSignals (Ready [] .osPoll) := by
  apply outline_read (fun a => a.toRecord = some .threadState) (counts_ready []) rfl
    (fun s ready => read_slot ready)
  intro a found
  simp only [Prog.bind_eq, Prog.bind_ret, found]
  apply outline_read (fun a => a.toBool = false) (counts_ready []) rfl
    (fun s ready => read_recvPipe ready)
  intro a main
  simp only [main, Prog.bind_ret, Bool.false_eq_true, if_false]
  apply outline_read (fun _ => True) (counts_ready []) rfl
    (fun s _ => ⟨.bool (s.pendingSignals ≠ 0), rfl, trivial⟩)
  intro a _
  simp only [Prog.bind_ret]
  split
  next =>
    apply outline_read (fun _ => True) (counts_ready []) rfl
      (fun s _ => ⟨.handlers s.threadState.osSignalHandlers, rfl, trivial⟩)
    intro a _
    exact outline_pollHandlers a.toHandlers
  next => exact outline_ret nested_nil _

end Outlines

section Runs

theorem called_ready {frames : List LibcMark} {o : Op} {func : Nat → List JSValue → Program Answer}
    {used : Nat} {argv : List JSValue} {s s' : Runtime} {p : Program Answer}
    (holds : discipline.outside frames s) (uses : o.used = [used])
    (called : jsCallCFunction func used argv s = some (s', p)) :
    Ready frames o s' ∧ ∃ argc args, p = func argc args := by
  obtain ⟨nested, books⟩ := holds
  unfold jsCallCFunction at called
  split at called
  next checked =>
    cases called
    obtain ⟨deeper, room⟩ := checked
    have within : used ≤ JS_DEFAULT_STACK_SIZE := by
      simp only [jsCheckStackOverflow, Bool.not_eq_true', decide_eq_false_iff_not] at room
      omega
    have above : ∀ u ∈ s.cStack, u < used := by
      intro u member
      have descending := books.descending
      cases stack : s.cStack with
      | nil =>
        rw [stack] at member
        cases member
      | cons top rest =>
        rw [stack] at deeper member descending
        have top_below : top < used := by simpa using deeper
        rcases List.mem_cons.1 member with rfl | later
        · exact top_below
        · exact Nat.lt_trans ((List.pairwise_cons.1 descending).1 u later) top_below
    refine ⟨⟨books.slot, books.mainThread, books.recurse, books.handler, ?_, ?_, ?_⟩, _, _, rfl⟩
    · rw [usedBy, uses, books.cStack]
      rfl
    · exact List.pairwise_cons.2 ⟨above, books.descending⟩
    · intro u member
      rcases List.mem_cons.1 member with rfl | later
      · exact within
      · exact books.bounded u later
  next => cases called

theorem start_outlined {o : Op} {frames : List LibcMark} {s s' : Runtime} {p : Program Answer}
    (holds : discipline.outside frames s)
    (side : libc.caller o = libc.sideOf (markedContext frames))
    (starts : start o (markedContext frames) s = some (s', p)) :
    ∃ Q : Runtime → Prop, Q s' ∧ Outlined frames o p Q := by
  have nested := holds.1
  cases o with
  | osPoll =>
    -- only the host polls, and then nothing is on the stack
    match frames, nested with
    | [], _ =>
      cases starts
      exact ⟨Ready [] .osPoll, books_frames holds.2 rfl, outline_jsOsPollSignals⟩
    | .pending e :: .caller o :: rest, _ => cases side
  | runJS =>
    cases starts
    exact ⟨Ready frames .runJS, books_frames holds.2 rfl,
      outline_call nested rfl fun a => outline_ret nested a⟩
  | evalScript used argv =>
    simp only [start] at starts
    split at starts
    next =>
      obtain ⟨ready, argc, args, rfl⟩ := called_ready (o := .evalScript used argv) holds rfl starts
      exact ⟨_, ready, outline_evalArguments nested rfl⟩
    next => cases starts
  | evalModule used argv =>
    simp only [start] at starts
    split at starts
    next =>
      obtain ⟨ready, argc, args, rfl⟩ := called_ready (o := .evalModule used argv) holds rfl starts
      exact ⟨_, ready, outline_evalArguments nested rfl⟩
    next => cases starts

theorem event_books {ev : Event} {ctx : Option Call} {frames : List LibcMark} {count : Nat}
    {installed : Bool} {s s' : Runtime} (books : Books frames count installed s)
    (acts : event ev ctx s = some s') : Books frames count installed s' := by
  unfold event at acts
  split at acts
  next =>
    cases ev with
    | pollInterrupts =>
      cases acts
      unfold Runtime.pollInterrupts
      split
      · split
        · exact ⟨books.slot, books.mainThread, books.recurse, books.handler, books.cStack,
            books.descending, books.bounded⟩
        · exact books
      · exact books
    | replaceError =>
      cases acts
      exact ⟨books.slot, books.mainThread, books.recurse, books.handler, books.cStack,
        books.descending, books.bounded⟩
    | osSignal sigNum func =>
      obtain ⟨ts, -, accepted⟩ := Option.bind_eq_some_iff.1 acts
      split at accepted
      · cases accepted
      cases accepted
      exact ⟨books.slot, books.mainThread, books.recurse, books.handler, books.cStack,
        books.descending, books.bounded⟩
  next => cases acts

theorem libc_outlined : libc.Outlined osSignalHandler discipline where
  arrivals _ sigNum _ holds := ⟨holds.1, books_arrival sigNum holds.2⟩
  events _ _ _ _ holds acts := ⟨holds.1, event_books holds.2 acts⟩
  starts _ _ _ _ _ holds side starts := start_outlined holds side starts

theorem initial_outlined (pendingSignals : BitVec 64) :
    libc.OutlinedConfig osSignalHandler discipline (initial pendingSignals) := by
  refine ⟨⟨trivial, ⟨rfl, rfl, rfl, rfl, rfl, List.Pairwise.nil, ?_⟩⟩, trivial⟩
  exact fun _ member => nomatch member

abbrev LibcTurn := Turn Answer Op Event (Fin 64)

theorem run_outlined {pendingSignals : BitVec 64} {ts : List LibcTurn} {c : LibcConfig}
    (ran : libc.turns osSignalHandler ts (initial pendingSignals) = some c) :
    libc.OutlinedConfig osSignalHandler discipline c :=
  Bridge.turns_outlined libc_outlined (initial_outlined pendingSignals) ran

theorem outside_counted {c : LibcConfig} (here : libc.OutlinedConfig osSignalHandler discipline c)
    (outside : c.control = .outside) :
    c.state.threadState.evalScriptRecurse.toInt = insideEval (marks c.stack) ∧
      c.state.interruptHandler =
        if 0 < insideEval (marks c.stack) then some .interruptHandler else none := by
  obtain ⟨s, control, stack⟩ := c
  cases outside
  obtain ⟨⟨-, books⟩, -⟩ := here
  have handler := books.handler
  exact ⟨books.recurse, by simpa using handler⟩

theorem native_during {c : LibcConfig} {p : Program Answer}
    (here : libc.OutlinedConfig osSignalHandler discipline c) (running : c.control = .native p) :
    During (marks c.stack) p c.state := by
  obtain ⟨o, rest, -, during⟩ := Bridge.outlined_inside here running
  exact during

/-- The activation on top is the outermost one and on its way out. -/
def EndsOutermost (c : LibcConfig) : Prop :=
  ∃ p, c.control = .native p ∧ Ends (marks c.stack) p c.state

/-- js_os_poll runs, and nothing else is on the stack. -/
def HostPolls (c : LibcConfig) : Prop := marks c.stack = [.caller .osPoll]

def Runtime.installed (s : Runtime) : Bool := s.interruptHandler = some .interruptHandler

structure Retains (s s' : Runtime) : Prop where
  installed : s.installed = true → s'.installed = true
  pending : ∀ sigNum, s.isPending sigNum = true → s'.isPending sigNum = true

theorem retains_same {s s' : Runtime} (handler : s'.interruptHandler = s.interruptHandler)
    (pending : s'.pendingSignals = s.pendingSignals) : Retains s s' := by
  constructor
  · simp [Runtime.installed, handler]
  · simp [Runtime.isPending, pending]

theorem getLsbD_sigMask (sigNum : Fin 64) (i : Nat) :
    (sigMask sigNum).getLsbD i = decide (i = sigNum.val) := by
  have bound := sigNum.isLt
  simp only [sigMask, BitVec.getLsbD_shiftLeft, BitVec.getLsbD_one]
  by_cases same : i = sigNum.val
  · simp [same]
  · by_cases before : i < sigNum.val
    · simp [before, same]
    · have after : i - sigNum.val ≠ 0 := by omega
      simp [after, same]

theorem isPending_iff (s : Runtime) (sigNum : Fin 64) :
    s.isPending sigNum = s.pendingSignals.getLsbD sigNum.val := by
  have masked : ∀ i, (s.pendingSignals &&& sigMask sigNum).getLsbD i =
      (s.pendingSignals.getLsbD i && decide (i = sigNum.val)) := by
    intro i
    rw [BitVec.getLsbD_and, getLsbD_sigMask]
  unfold Runtime.isPending
  cases bit : s.pendingSignals.getLsbD sigNum.val with
  | true =>
    have one := masked sigNum.val
    apply decide_eq_true
    intro zero
    rw [zero, bit] at one
    simp at one
  | false =>
    have zero : s.pendingSignals &&& sigMask sigNum = 0 := by
      apply BitVec.eq_of_getLsbD_eq
      intro i _
      rw [masked i]
      by_cases same : i = sigNum.val
      · rw [same, bit]
        simp
      · simp [same]
    simp [zero]

theorem retains_arrival (sigNum : Fin 64) (s : Runtime) : Retains s (osSignalHandler sigNum s) := by
  refine ⟨fun installed => installed, fun other pending => ?_⟩
  rw [isPending_iff] at pending ⊢
  simp [osSignalHandler, pending]

theorem exec_retains {q : Prim} {a : Answer} {s s' : Runtime} (kept : q.undoes = false)
    (runs : exec q s = some (a, s')) : Retains s s' := by
  cases q with
  | setInterruptHandler cb =>
    cases cb with
    | none => cases kept
    | some handler =>
      cases runs
      exact ⟨fun _ => rfl, fun _ pending => pending⟩
  | clearPending sigNum => cases kept
  | incrementRecurse ts =>
    obtain ⟨state, -, counts⟩ := Option.bind_eq_some_iff.1 runs
    split at counts <;> cases counts
    exact retains_same rfl rfl
  | decrementRecurse ts =>
    obtain ⟨state, -, counts⟩ := Option.bind_eq_some_iff.1 runs
    split at counts <;> cases counts
    exact retains_same rfl rfl
  | recvPipe ts =>
    obtain ⟨state, -, reads⟩ := Option.map_eq_some_iff.1 runs
    cases reads
    exact retains_same rfl rfl
  | osSignalHandlers ts =>
    obtain ⟨state, -, reads⟩ := Option.map_eq_some_iff.1 runs
    cases reads
    exact retains_same rfl rfl
  | _ =>
    cases runs
    exact retains_same rfl rfl

theorem start_retains {o : Op} {ctx : Option Call} {s s' : Runtime} {p : Program Answer}
    (starts : start o ctx s = some (s', p)) : Retains s s' := by
  have called : ∀ {func used argv}, jsCallCFunction func used argv s = some (s', p) →
      Retains s s' := by
    intro func used argv called
    cases of_ite_some called
    exact retains_same rfl rfl
  cases o with
  | evalScript used argv => exact called (of_ite_some starts)
  | evalModule used argv => exact called (of_ite_some starts)
  | _ =>
    cases starts
    exact retains_same rfl rfl

theorem finish_retains {o : Op} (a : Answer) {s s' : Runtime} (ends : finish o a s = some s') :
    Retains s s' := by
  unfold finish at ends
  split at ends <;> cases ends <;> exact retains_same rfl rfl

theorem event_retains {ev : Event} {ctx : Option Call} {s s' : Runtime}
    (acts : event ev ctx s = some s') : Retains s s' := by
  replace acts := of_ite_some acts
  cases ev with
  | pollInterrupts =>
    cases acts
    unfold Runtime.pollInterrupts
    split
    · split <;> exact retains_same rfl rfl
    · exact retains_same rfl rfl
  | replaceError =>
    cases acts
    exact retains_same rfl rfl
  | osSignal sigNum func =>
    obtain ⟨ts, -, accepted⟩ := Option.bind_eq_some_iff.1 acts
    split at accepted <;> cases accepted
    exact retains_same rfl rfl

theorem turn_retains {t : LibcTurn} {c c' : LibcConfig}
    (taken : libc.turn osSignalHandler t c = some c') :
    Retains c.state c'.state ∨ ∃ q next a, c.control = .native (.prim q next) ∧
      q.undoes = true ∧ exec q c.state = some (a, c'.state) := by
  cases t with
  | arrival sigNum =>
    cases taken
    exact Or.inl (retains_arrival sigNum c.state)
  | step l =>
    obtain ⟨⟨action, ctx, s⟩, named, before, acts⟩ := Bridge.step_performs taken
    cases before
    cases action with
    | prim q =>
      obtain ⟨next, running⟩ := moment_prim named rfl
      obtain ⟨⟨a, s'⟩, runs, same⟩ := Option.map_eq_some_iff.1 acts
      cases same
      cases undoes : q.undoes with
      | true => exact Or.inr ⟨q, next, a, running, undoes, runs⟩
      | false => exact Or.inl (exec_retains undoes runs)
    | depart e =>
      have same := Option.some.inj acts
      exact Or.inl (retains_same (by rw [← same]) (by rw [← same]))
    | deliver e a =>
      have same := deliver_same acts
      exact Or.inl (retains_same (by rw [same]) (by rw [same]))
    | start o =>
      obtain ⟨⟨s', p⟩, starts, same⟩ := Option.map_eq_some_iff.1 acts
      cases same
      exact Or.inl (start_retains starts)
    | finish o a => exact Or.inl (finish_retains a acts)
    | event ev => exact Or.inl (event_retains acts)

theorem clear_installed {q : Prim} {a : Answer} {s s' : Runtime} (undoes : q.undoes = true)
    (other : q ≠ .setInterruptHandler none) (runs : exec q s = some (a, s')) :
    s'.installed = s.installed := by
  cases q with
  | setInterruptHandler cb =>
    cases cb with
    | none => exact absurd rfl other
    | some handler => cases undoes
  | clearPending sigNum =>
    cases runs
    rfl
  | _ => cases undoes

/-- The handler goes only where the outermost activation ends, and a pending SIGINT only
    there or where the host polls. -/
theorem turn_removes {t : LibcTurn} {c c' : LibcConfig}
    (here : libc.OutlinedConfig osSignalHandler discipline c)
    (taken : libc.turn osSignalHandler t c = some c') :
    (c.state.installed = true → c'.state.installed = false → EndsOutermost c) ∧
    (c.state.isPending SIGINT = true → c'.state.isPending SIGINT = false →
      EndsOutermost c ∨ HostPolls c) := by
  rcases turn_retains taken with retains | ⟨q, next, a, running, undoes, runs⟩
  · constructor
    · intro before after
      rw [retains.installed before] at after
      cases after
    · intro before after
      rw [retains.pending SIGINT before] at after
      cases after
  · rcases (native_during here running).undone q next rfl undoes with ends | ⟨other, alone⟩
    · exact ⟨fun _ _ => ⟨_, running, ends⟩, fun _ _ => Or.inl ⟨_, running, ends⟩⟩
    · refine ⟨fun before after => ?_, fun _ _ => Or.inr alone⟩
      rw [clear_installed undoes other runs, before] at after
      cases after

/-- In every state of every run the counter and the handler show how many activations are
    inside JS_Eval. -/
theorem evaluations_counted {pendingSignals : BitVec 64} {ts : List LibcTurn} {c : LibcConfig}
    (ran : libc.turns osSignalHandler ts (initial pendingSignals) = some c) :
    -- while JS code or the host runs
    (c.control = .outside →
      c.state.threadState.evalScriptRecurse.toInt = insideEval (marks c.stack) ∧
      (c.state.installed = true ↔ 0 < insideEval (marks c.stack))) ∧
    -- while native code runs, which may just be counting itself
    (∀ p, c.control = .native p →
      (c.state.threadState.evalScriptRecurse.toInt = insideEval (marks c.stack) ∨
        c.state.threadState.evalScriptRecurse.toInt = insideEval (marks c.stack) + 1) ∧
      (0 < insideEval (marks c.stack) → c.state.installed = true)) ∧
    -- what the next turn may take away
    (∀ t c', libc.turn osSignalHandler t c = some c' →
      (c.state.installed = true → c'.state.installed = false → EndsOutermost c) ∧
      (c.state.isPending SIGINT = true → c'.state.isPending SIGINT = false →
        EndsOutermost c ∨ HostPolls c)) ∧
    -- the counter does not overflow, and no other primitive is undefined either
    (∀ q next, c.control = .native (.prim q next) → (exec q c.state).isSome) ∧
    -- once the outermost activation has ended
    (c.control = .outside → insideEval (marks c.stack) = 0 →
      c.state.threadState.evalScriptRecurse =
        (initial pendingSignals).state.threadState.evalScriptRecurse ∧
      c.state.interruptHandler = (initial pendingSignals).state.interruptHandler) := by
  have here := run_outlined ran
  refine ⟨fun outside => ?_, fun p running => ?_, fun t c' taken => turn_removes here taken,
    fun q next running => (native_during here running).defined q next rfl,
    fun outside ended => ?_⟩
  · obtain ⟨counted, handler⟩ := outside_counted here outside
    refine ⟨counted, ?_⟩
    rw [Runtime.installed, handler]
    simp
  · have during := native_during here running
    refine ⟨during.counted, fun inside => ?_⟩
    simp [Runtime.installed, during.installed inside]
  · obtain ⟨counted, handler⟩ := outside_counted here outside
    rw [ended] at counted handler
    exact ⟨eq_zero_iff.2 counted, handler⟩

/-- An option getter of a module evaluates a script, and a signal arrives inside; then the
    module evaluates another one. -/
def nestedRun : List LibcTurn :=
  [.step (.call .runJS), .step .tau,
    .step (.call (.evalModule 100 [.undefined, .object 1])), .step .tau, .step .tau,
    -- the getter
    .step (.call (.evalScript 200 [.undefined])), .step .tau, .step .tau,
    .step (.answer (.text (some []))), .step .tau, .step .tau, .step .tau, .step .tau,
    .arrival SIGINT, .step (.answer (.value .exception)), .step .tau, .step .tau, .step .tau,
    .step .tau, .step .tau, .step .tau,
    -- the module
    .step (.answer (.value .undefined)), .step .tau, .step (.answer (.text (some []))),
    .step .tau, .step .tau, .step .tau, .step .tau,
    .step (.call (.evalScript 200 [.undefined])), .step .tau, .step .tau,
    .step (.answer (.text (some []))), .step .tau, .step .tau, .step .tau]

/-- At its end two activations are inside JS_Eval. -/
theorem nestedRun_counted : ∃ c, libc.turns osSignalHandler nestedRun (initial 0) = some c ∧
    insideEval (marks c.stack) = 2 ∧ c.state.threadState.evalScriptRecurse.toInt = 2 ∧
    c.state.installed = true := by
  have shape : (libc.turns osSignalHandler nestedRun (initial 0)).map (fun c =>
      (Bridge.isNative c.control, insideEval (marks c.stack))) = some (false, 2) := by decide
  obtain ⟨c, ran, same⟩ := Option.map_eq_some_iff.1 shape
  obtain ⟨native, inside⟩ := Prod.mk.inj same
  have outside : c.control = .outside := by
    cases control : c.control with
    | outside => rfl
    | native p =>
      rw [control] at native
      cases native
  obtain ⟨counted, installed⟩ := (evaluations_counted ran).1 outside
  rw [inside] at counted installed
  exact ⟨c, ran, inside, counted, installed.2 (by decide)⟩

end Runs
end QuickJSBridge.Libc
