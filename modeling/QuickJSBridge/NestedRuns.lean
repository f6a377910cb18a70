import Mathlib.Data.List.Induction
import QuickJSBridge.ReentrantMachine

/- What a machine run looks like above one frame of its stack. A call that was answered
   ran in between as a run of its own, so a native program that came to its end has an
   execution in which every reply is such a run, one that is under way has the beginning of one,
   and the frames of the two sides alternate on every stack a run reaches. -/
namespace ReentrantMachine
open HostProgram

variable {σ P E A Op Ev : Type}

namespace Bridge
variable (M : Bridge σ P E A Op Ev)

/-- The other side is entered, acts for a while, possibly through nested native programs,
    and answers. -/
def Reply (e : E) (s : σ) (a : A) (s' : σ) : Prop :=
  ∃ s₁ s₂ labels, M.depart e s = some s₁ ∧
    M.run labels ⟨s₁, .outside, [.pending e .ret]⟩ = some ⟨s₂, .outside, [.pending e .ret]⟩ ∧
    M.deliver e a s₂ = some s'

def meaning : Meaning σ P E A := ⟨M.exec, M.Reply⟩

section Above
variable {M}

theorem context_append (inner : List (Frame P E A Op)) (e : E) (k k' : A → Native P E A)
    (rest rest' : List (Frame P E A Op)) :
    context (inner ++ .pending e k :: rest) = context (inner ++ .pending e k' :: rest') := by
  cases inner with
  | nil => rfl
  | cons frame inner => cases frame <;> rfl

/-- A step above a pending call either leaves it pending, and then what the call returns
    to does not matter, or answers it. -/
theorem step_above {l : Label A Op Ev} {s : σ} {control : Control P E A}
    {inner rest : List (Frame P E A Op)} {e : E} {k : A → Native P E A}
    {c' : Config σ P E A Op}
    (taken : M.step l ⟨s, control, inner ++ .pending e k :: rest⟩ = some c') :
    (∃ inner', c'.stack = inner' ++ .pending e k :: rest ∧ ∀ k' rest',
      M.step l ⟨s, control, inner ++ .pending e k' :: rest'⟩ =
        some ⟨c'.state, c'.control, inner' ++ .pending e k' :: rest'⟩) ∨
    (inner = [] ∧ control = .outside ∧ ∃ a s', l = .answer a ∧ M.deliver e a s = some s' ∧
      c' = ⟨s', .native (k a), rest⟩) := by
  generalize full : inner ++ .pending e k :: rest = stack at taken
  cases step_taken taken with
  | event acts =>
    subst full
    refine Or.inl ⟨inner, rfl, fun k' rest' => ?_⟩
    simp only [step]
    rw [context_append inner e k' k rest' rest, acts]
    rfl
  | @call o _ _ _ _ called starts =>
    subst full
    refine Or.inl ⟨.caller o :: inner, rfl, fun k' rest' => ?_⟩
    simp only [step]
    rw [context_append inner e k' k rest' rest, if_pos called, starts]
    rfl
  | @answer a _ _ _ s' _ back =>
    cases inner with
    | nil =>
      cases full
      exact Or.inr ⟨rfl, rfl, a, s', rfl, back, rfl⟩
    | cons frame inner =>
      cases full
      refine Or.inl ⟨inner, rfl, fun k' rest' => ?_⟩
      simp [step, back]
  | prim acts =>
    subst full
    refine Or.inl ⟨inner, rfl, fun k' rest' => ?_⟩
    simp [step, acts]
  | @depart e' next _ _ _ leaves =>
    subst full
    refine Or.inl ⟨.pending e' next :: inner, rfl, fun k' rest' => ?_⟩
    simp [step, leaves]
  | finish done =>
    cases inner with
    | nil => cases full
    | cons frame inner =>
      cases full
      refine Or.inl ⟨inner, rfl, fun k' rest' => ?_⟩
      simp [step, done]

theorem run_above {labels : List (Label A Op Ev)} {s : σ} {control : Control P E A}
    {inner rest : List (Frame P E A Op)} {e : E} {k : A → Native P E A}
    {d : Config σ P E A Op}
    (ran : M.run labels ⟨s, control, inner ++ .pending e k :: rest⟩ = some d) :
    (∃ inner', d.stack = inner' ++ .pending e k :: rest ∧ ∀ k' rest',
      M.run labels ⟨s, control, inner ++ .pending e k' :: rest'⟩ =
        some ⟨d.state, d.control, inner' ++ .pending e k' :: rest'⟩) ∨
    (∃ first a second u s', labels = first ++ .answer a :: second ∧
      (∀ k' rest', M.run first ⟨s, control, inner ++ .pending e k' :: rest'⟩ =
        some ⟨u, .outside, .pending e k' :: rest'⟩) ∧
      M.deliver e a u = some s' ∧ M.run second ⟨s', .native (k a), rest⟩ = some d) := by
  induction labels generalizing s control inner with
  | nil =>
    cases ran
    exact Or.inl ⟨inner, rfl, fun k' rest' => rfl⟩
  | cons l labels ih =>
    obtain ⟨c', taken, tail⟩ := run_cons ran
    rcases step_above taken with ⟨inner', above, same⟩ | ⟨rfl, rfl, a, s', rfl, acts, rfl⟩
    · obtain ⟨s', control', stack'⟩ := c'
      cases above
      rcases ih tail with ⟨last, stays, again⟩ | ⟨first, a, second, u, v, rfl, again, acts, after⟩
      · refine Or.inl ⟨last, stays, fun k' rest' => ?_⟩
        rw [run, same k' rest']
        exact again k' rest'
      · refine Or.inr ⟨l :: first, a, second, u, v, rfl, fun k' rest' => ?_, acts, after⟩
        rw [run, same k' rest']
        exact again k' rest'
    · exact Or.inr ⟨[], a, labels, s, s', rfl, fun k' rest' => rfl, acts, tail⟩

theorem reply_of_run {first : List (Label A Op Ev)} {e : E} {a : A} {s s₁ u s' : σ}
    (left : M.depart e s = some s₁)
    (inside : ∀ k' rest', M.run first ⟨s₁, .outside, .pending e k' :: rest'⟩ =
      some ⟨u, .outside, .pending e k' :: rest'⟩)
    (back : M.deliver e a u = some s') : M.Reply e s a s' :=
  ⟨s₁, u, first, left, inside .ret [], back⟩

theorem run_of_reply {e : E} {s s' : σ} {a : A} (reply : M.Reply e s a s')
    (k : A → Native P E A) (rest : List (Frame P E A Op)) :
    ∃ labels, M.run labels ⟨s, .native (.enter e k), rest⟩ = some ⟨s', .native (k a), rest⟩ := by
  obtain ⟨s₁, s₂, labels, left, inside, back⟩ := reply
  have inside' : M.run labels ⟨s₁, .outside, [] ++ .pending e .ret :: []⟩ =
      some ⟨s₂, .outside, [.pending e .ret]⟩ := inside
  rcases run_above inside' with ⟨inner', stays, again⟩ | ⟨first, b, second, u, v, -, -, -, after⟩
  · have bottom : inner' = [] := by
      cases inner' with
      | nil => rfl
      | cons frame inner' => simp at stays
    subst bottom
    refine ⟨.tau :: labels ++ [.answer a], ?_⟩
    have there := again k rest
    simp only [List.nil_append] at there
    simp [run, step, left, run_append, there, back]
  · cases second with
    | nil => simp [run] at after
    | cons l second =>
      obtain ⟨c', taken, -⟩ := run_cons after
      cases step_taken taken

theorem exec_of_run {labels : List (Label A Op Ev)} {p : Native P E A} {s : σ} {o : Op}
    {rest : List (Frame P E A Op)} {d : Config σ P E A Op}
    (ran : M.run labels ⟨s, .native p, .caller o :: rest⟩ = some d) :
    (∃ inner, d.stack = inner ++ .caller o :: rest) ∨
    (∃ first second a u u' trace, labels = first ++ .tau :: second ∧
      Exec M.meaning p s trace (.returned a) u ∧ M.finish o a u = some u' ∧
      M.run second ⟨u', .outside, rest⟩ = some d) := by
  induction p generalizing s labels with
  | ret a =>
    cases labels with
    | nil =>
      cases ran
      exact Or.inl ⟨[], rfl⟩
    | cons l labels =>
      obtain ⟨c', taken, tail⟩ := run_cons ran
      cases step_taken taken with
      | @finish _ _ _ u' _ done => exact Or.inr ⟨[], labels, a, s, u', [], rfl, .ret a s, done, tail⟩
  | spin =>
    cases labels with
    | nil =>
      cases ran
      exact Or.inl ⟨[], rfl⟩
    | cons l labels =>
      obtain ⟨c', taken, -⟩ := run_cons ran
      cases step_taken taken
  | crash =>
    cases labels with
    | nil =>
      cases ran
      exact Or.inl ⟨[], rfl⟩
    | cons l labels =>
      obtain ⟨c', taken, -⟩ := run_cons ran
      cases step_taken taken
  | prim c next ih =>
    cases labels with
    | nil =>
      cases ran
      exact Or.inl ⟨[], rfl⟩
    | cons l labels =>
      obtain ⟨c', taken, tail⟩ := run_cons ran
      cases step_taken taken with
      | @prim _ _ b _ _ _ acts =>
        rcases ih b tail with stays | ⟨first, second, a, u, u', trace, rfl, body, done, after⟩
        · exact Or.inl stays
        · exact Or.inr ⟨.tau :: first, second, a, u, u', _, rfl, .prim acts body, done, after⟩
  | enter e next ih =>
    cases labels with
    | nil =>
      cases ran
      exact Or.inl ⟨[], rfl⟩
    | cons l labels =>
      obtain ⟨c', taken, tail⟩ := run_cons ran
      cases step_taken taken with
      | @depart _ _ _ s₁ _ left =>
        have tail' : M.run labels ⟨s₁, .outside, [] ++ .pending e next :: .caller o :: rest⟩ =
            some d := tail
        rcases run_above tail' with ⟨inner, stays, -⟩ | ⟨early, b, late, v, s', rfl, inside, back, on⟩
        · exact Or.inl ⟨inner ++ [.pending e next], by simp [stays]⟩
        · have reply : M.Reply e s b s' := reply_of_run left inside back
          rcases ih b on with stays | ⟨first, second, a, u, u', trace, rfl, body, done, after⟩
          · exact Or.inl stays
          · exact Or.inr ⟨.tau :: early ++ .answer b :: first, second, a, u, u',
              .call e b s' :: trace, by simp, .enter reply body, done, after⟩

theorem run_of_exec {p : Native P E A} {s t : σ} {a : A} {trace : List (Item σ P E A)}
    (body : Exec M.meaning p s trace (.returned a) t) (rest : List (Frame P E A Op)) :
    ∃ labels, M.run labels ⟨s, .native p, rest⟩ = some ⟨t, .native (.ret a), rest⟩ := by
  induction p generalizing s trace with
  | ret r =>
    obtain ⟨-, same, rfl⟩ := exec_ret body
    cases same
    exact ⟨[], rfl⟩
  | spin => cases body
  | crash => cases body
  | prim c next ih =>
    obtain ⟨b, s', later, acts, tail, rfl⟩ := exec_prim body
    obtain ⟨labels, ran⟩ := ih b tail
    have acts' : M.exec c s = some (b, s') := acts
    exact ⟨.tau :: labels, by simp [run, step, acts', ran]⟩
  | enter e next ih =>
    obtain ⟨b, s', later, answers, tail, rfl⟩ := exec_enter body
    obtain ⟨early, there⟩ := run_of_reply answers next rest
    obtain ⟨labels, ran⟩ := ih b tail
    exact ⟨early ++ labels, by simp [run_append, there, ran]⟩

end Above

section Nesting

/-- Frames alternate: below a pending call stands the program that issued it, below a
    program the side that started it. The flag tells whether native code is on top. -/
def Alternates : Bool → List (Frame P E A Op) → Prop
  | false, [] => True
  | false, .pending _ _ :: rest => Alternates true rest
  | true, .caller o :: rest => M.caller o = M.sideOf (context rest) ∧ Alternates false rest
  | _, _ => False

def isNative : Control P E A → Bool
  | .outside => false
  | .native _ => true

def WellNested (c : Config σ P E A Op) : Prop :=
  M.Alternates (isNative c.control) c.stack

/-- Calls into the engine that have not been answered. -/
def activations : List (Frame P E A Op) → Nat
  | [] => 0
  | .pending e _ :: rest => (if M.side e = .engine then 1 else 0) + activations rest
  | .caller _ :: rest => activations rest

/-- Native programs the engine has started and that have not come to their end. -/
def callbacks : List (Frame P E A Op) → Nat
  | [] => 0
  | .pending _ _ :: rest => callbacks rest
  | .caller o :: rest => (if M.caller o = .engine then 1 else 0) + callbacks rest

variable {M}

theorem activations_eq {native : Bool} {stack : List (Frame P E A Op)}
    (nested : M.Alternates native stack) :
    M.activations stack = M.callbacks stack +
      (if native = false ∧ M.sideOf (context stack) = .engine then 1 else 0) := by
  induction stack generalizing native with
  | nil =>
    cases native with
    | false => simp [activations, callbacks, context, sideOf]
    | true => exact nested.elim
  | cons frame rest ih =>
    cases frame with
    | pending e next =>
      cases native with
      | false =>
        have below := ih nested
        simp only [Bool.true_eq_false, false_and, if_false, Nat.add_zero] at below
        simp only [activations, callbacks, context, sideOf, true_and, below]
        omega
      | true => exact nested.elim
    | caller o =>
      cases native with
      | false => exact nested.elim
      | true =>
        have below := ih nested.2
        simp only [true_and] at below
        simp only [activations, callbacks, below, nested.1, Bool.true_eq_false, false_and,
          if_false]
        omega

theorem step_wellNested {l : Label A Op Ev} {c c' : Config σ P E A Op}
    (nested : M.WellNested c) (taken : M.step l c = some c') : M.WellNested c' := by
  cases step_taken taken with
  | event acts => exact nested
  | call called starts => exact ⟨called, nested⟩
  | answer back => exact nested
  | prim acts => exact nested
  | depart leaves => exact nested
  | finish done => exact nested.2

theorem caller_above {native : Bool} {above below : List (Frame P E A Op)} {e : E}
    {k : A → Native P E A} (nested : M.Alternates native (above ++ .pending e k :: below))
    (covered : above ≠ []) :
    ∃ above' o, above = above' ++ [.caller o] ∧ M.caller o = M.side e := by
  induction above generalizing native with
  | nil => exact absurd rfl covered
  | cons frame above ih =>
    have rest : ∃ native', M.Alternates native' (above ++ .pending e k :: below) := by
      cases frame with
      | pending e' next =>
        cases native with
        | false => exact ⟨true, nested⟩
        | true => exact nested.elim
      | caller o =>
        cases native with
        | false => exact nested.elim
        | true => exact ⟨false, nested.2⟩
    obtain ⟨native', inner⟩ := rest
    by_cases last : above = []
    · subst last
      cases frame with
      | pending e' next =>
        cases native with
        | false => exact False.elim nested
        | true => exact nested.elim
      | caller o =>
        cases native with
        | false => exact nested.elim
        | true => exact ⟨[], o, rfl, nested.1⟩
    · obtain ⟨above', o, rfl, side⟩ := ih inner last
      exact ⟨frame :: above', o, rfl, side⟩

theorem activations_eq_callbacks {c : Config σ P E A Op} {p : Native P E A}
    (nested : M.WellNested c) (running : c.control = .native p) :
    M.activations c.stack = M.callbacks c.stack := by
  have top : M.Alternates true c.stack := by
    unfold WellNested at nested
    rw [running] at nested
    exact nested
  have counts := activations_eq top
  simpa using counts

end Nesting

section Started

/-- In this run the operation was started on these frames, and its program has come to `q`. -/
def CameTo (c₀ : Config σ P E A Op) (labels : List (Label A Op Ev)) (o : Op)
    (rest : List (Frame P E A Op)) (h : List (Item σ P E A)) (q : Native P E A) (t : σ) : Prop :=
  ∃ first second u s p, labels = first ++ .call o :: second ∧
    M.run first c₀ = some ⟨u, .outside, rest⟩ ∧ M.start o (context rest) u = some (s, p) ∧
    Unfinished M.meaning p s h q t

/-- The native program that runs, and those that wait, have come to where they are by executions of
    their own. -/
structure UnderWay (c₀ : Config σ P E A Op) (labels : List (Label A Op Ev)) (c : Config σ P E A Op) :
    Prop where
  running : ∀ {q o rest}, c.control = .native q → c.stack = .caller o :: rest →
    ∃ h, M.CameTo c₀ labels o rest h q c.state
  waiting : ∀ {inner e k o rest}, c.stack = inner ++ .pending e k :: .caller o :: rest →
    ∃ h t t' inside, M.CameTo c₀ labels o rest h (.enter e k) t ∧ M.depart e t = some t' ∧
      M.run inside ⟨t', .outside, [.pending e .ret]⟩ =
        some ⟨c.state, c.control, inner ++ [.pending e .ret]⟩

variable {M}

theorem waited_of_step {l : Label A Op Ev} {s : σ} {control : Control P E A}
    {stack inner below : List (Frame P E A Op)} {c' : Config σ P E A Op} {e : E}
    {k : A → Native P E A} (taken : M.step l ⟨s, control, stack⟩ = some c')
    (waits : c'.stack = inner ++ .pending e k :: below) :
    (∃ inner', stack = inner' ++ .pending e k :: below) ∨
    (inner = [] ∧ control = .native (.enter e k) ∧ stack = below ∧
      M.depart e s = some c'.state ∧ c'.control = .outside) := by
  have pushed : ∀ frame : Frame P E A Op, c'.stack = frame :: stack →
      (∃ inner', stack = inner' ++ .pending e k :: below) ∨
      (inner = [] ∧ frame = .pending e k ∧ stack = below) := by
    intro frame push
    rw [push] at waits
    cases inner with
    | nil =>
      cases waits
      exact Or.inr ⟨rfl, rfl, rfl⟩
    | cons f inner =>
      cases waits
      exact Or.inl ⟨inner, rfl⟩
  cases step_taken taken with
  | event acts => exact Or.inl ⟨inner, waits⟩
  | call called starts =>
    rcases pushed _ rfl with before | ⟨-, impossible, -⟩
    · exact Or.inl before
    · cases impossible
  | answer back => exact Or.inl ⟨_ :: inner, congrArg _ waits⟩
  | prim acts => exact Or.inl ⟨inner, waits⟩
  | depart leaves =>
    rcases pushed _ rfl with before | ⟨rfl, same, rfl⟩
    · exact Or.inl before
    · cases same
      exact Or.inr ⟨rfl, rfl, rfl, leaves, rfl⟩
  | finish done => exact Or.inl ⟨_ :: inner, congrArg _ waits⟩

variable {c₀ c c' : Config σ P E A Op} {labels : List (Label A Op Ev)} {l : Label A Op Ev} {o : Op}
  {rest : List (Frame P E A Op)} {h : List (Item σ P E A)} {q : Native P E A} {t : σ}

theorem CameTo.later (came : M.CameTo c₀ labels o rest h q t) :
    M.CameTo c₀ (labels ++ [l]) o rest h q t := by
  obtain ⟨first, second, u, s, p, rfl, ran, starts, before⟩ := came
  exact ⟨first, second ++ [l], u, s, p, by simp, ran, starts, before⟩

theorem CameTo.prim {b : P} {next : A → Native P E A} {a : A} {t' : σ}
    (came : M.CameTo c₀ labels o rest h (.prim b next) t) (acts : M.exec b t = some (a, t')) :
    M.CameTo c₀ labels o rest (h ++ [.prim b a t']) (next a) t' := by
  obtain ⟨first, second, u, s, p, same, ran, starts, before⟩ := came
  exact ⟨first, second, u, s, p, same, ran, starts, .prim before acts⟩

theorem CameTo.enter {e : E} {next : A → Native P E A} {a : A} {t' : σ}
    (came : M.CameTo c₀ labels o rest h (.enter e next) t) (answers : M.Reply e t a t') :
    M.CameTo c₀ labels o rest (h ++ [.call e a t']) (next a) t' := by
  obtain ⟨first, second, u, s, p, same, ran, starts, before⟩ := came
  exact ⟨first, second, u, s, p, same, ran, starts, .enter before answers⟩

theorem step_running (ran : M.run labels c₀ = some c) (held : M.UnderWay c₀ labels c)
    (taken : M.step l c = some c') (runs : c'.control = .native q) (top : c'.stack = .caller o :: rest) :
    ∃ h, M.CameTo c₀ (labels ++ [l]) o rest h q c'.state := by
  cases step_taken taken with
  | event acts => cases runs
  | call called starts =>
    cases runs
    cases top
    exact ⟨[], labels, [], _, _, _, rfl, ran, starts, .start⟩
  | @answer a e next s s' stack back =>
    cases runs
    cases top
    obtain ⟨h, t, t', inside, came, left, within⟩ := held.waiting (List.nil_append _).symm
    have reply : M.Reply e t a s' := ⟨t', s, inside, left, within, back⟩
    exact ⟨_, (came.enter reply).later⟩
  | prim acts =>
    cases runs
    obtain ⟨h, came⟩ := held.running rfl top
    exact ⟨_, (came.prim acts).later⟩
  | depart leaves => cases runs
  | finish done => cases runs

theorem step_underWay (ran : M.run labels c₀ = some c) (held : M.UnderWay c₀ labels c)
    (taken : M.step l c = some c') : M.UnderWay c₀ (labels ++ [l]) c' := by
  constructor
  · exact fun runs top => step_running ran held taken runs top
  · intro inner e k o rest waits
    obtain ⟨s, control, stack⟩ := c
    rcases waited_of_step taken waits with ⟨inner', earlier⟩ | ⟨rfl, rfl, rfl, left, outside⟩
    · subst earlier
      obtain ⟨h, t, t', inside, came, left, within⟩ := held.waiting rfl
      rcases step_above taken with ⟨inner'', above, same⟩ | ⟨-, -, a, s', -, -, rfl⟩
      · cases List.append_cancel_right (above.symm.trans waits)
        refine ⟨h, t, t', inside ++ [l], came.later, left, ?_⟩
        have again : M.run [l] ⟨s, control, inner' ++ [.pending e .ret]⟩ =
            some ⟨c'.state, c'.control, inner ++ [.pending e .ret]⟩ := by
          rw [run, same .ret []]
          rfl
        rw [run_append, within]
        exact again
      · have deep := congrArg List.length waits
        simp at deep
        omega
    · obtain ⟨h, came⟩ := held.running rfl rfl
      exact ⟨h, s, c'.state, [], came.later, left, by rw [outside]; rfl⟩

theorem run_underWay {s : σ} (ran : M.run labels ⟨s, .outside, []⟩ = some c) :
    M.UnderWay ⟨s, .outside, []⟩ labels c := by
  induction labels using List.reverseRecOn generalizing c with
  | nil =>
    cases ran
    constructor
    · intro q o rest runs
      cases runs
    · intro inner e k o rest waits
      have deep := congrArg List.length waits
      simp at deep
  | append_singleton labels l ih =>
    rw [run_append] at ran
    obtain ⟨d, early, last⟩ := Option.bind_eq_some_iff.1 ran
    obtain ⟨d', taken, rest⟩ := run_cons last
    cases rest
    exact step_underWay early (ih early) taken

end Started

end Bridge
end ReentrantMachine
