import QuickJSBridge.ReentrantMachine

/- Proof outlines for native programs that are entered again while they wait. An assertion
   stands before every command; a call is made and answered under what the frames on the
   stack say about the shared state. Beside the steps of the machine there are arrivals,
   which change the state at any moment, also between two commands of a program. -/
namespace ReentrantMachine
open HostProgram

variable {σ P E A Op Ev V : Type}

/-- A frame without the program that waits in it. -/
inductive Mark (E Op : Type) where
  | pending (e : E)
  | caller (o : Op)
  deriving DecidableEq

def Frame.mark : Frame P E A Op → Mark E Op
  | .pending e _ => .pending e
  | .caller o => .caller o

def marks (stack : List (Frame P E A Op)) : List (Mark E Op) := stack.map Frame.mark

@[simp] theorem marks_nil : marks ([] : List (Frame P E A Op)) = [] := rfl
@[simp] theorem marks_pending (e : E) (next : A → Native P E A) (rest : List (Frame P E A Op)) :
    marks (.pending e next :: rest) = .pending e :: marks rest := rfl
@[simp] theorem marks_caller (o : Op) (rest : List (Frame P E A Op)) :
    marks (.caller o :: rest) = .caller o :: marks rest := rfl

def markedContext : List (Mark E Op) → Option E
  | .pending e :: _ => some e
  | _ => none

theorem context_marks (stack : List (Frame P E A Op)) :
    context stack = markedContext (marks stack) := by
  cases stack with
  | nil => rfl
  | cons frame rest => cases frame <;> rfl

/-- A step of the machine, or something that happens to the state beside it. -/
inductive Turn (A Op Ev V : Type) where
  | step (l : Label A Op Ev)
  | arrival (v : V)

namespace Bridge
variable (M : Bridge σ P E A Op Ev) (arrive : V → σ → σ)

def turn : Turn A Op Ev V → Config σ P E A Op → Option (Config σ P E A Op)
  | .step l, c => M.step l c
  | .arrival v, c => some { c with state := arrive v c.state }

def turns : List (Turn A Op Ev V) → Config σ P E A Op → Option (Config σ P E A Op)
  | [], c => some c
  | t :: rest, c => (M.turn arrive t c).bind (turns rest)

theorem turns_invariant {M : Bridge σ P E A Op Ev} {arrive : V → σ → σ}
    (inv : Config σ P E A Op → Prop)
    (kept : ∀ t c c', inv c → M.turn arrive t c = some c' → inv c')
    {ts : List (Turn A Op Ev V)} {c d : Config σ P E A Op} (start : inv c)
    (ran : M.turns arrive ts c = some d) : inv d := by
  induction ts generalizing c with
  | nil =>
    cases ran
    exact start
  | cons t rest ih =>
    obtain ⟨c', taken, later⟩ := Option.bind_eq_some_iff.1 ran
    exact ih (kept t c c' start taken) later

end Bridge

/-- What the frames on the stack say about the state while no native program runs, and what
    holds at every point of the one that does. -/
structure Discipline (σ P E A Op : Type) where
  outside : List (Mark E Op) → σ → Prop
  inside : List (Mark E Op) → Native P E A → σ → Prop

namespace Bridge
variable (M : Bridge σ P E A Op Ev) (arrive : V → σ → σ) (D : Discipline σ P E A Op)

def Stable (Q : σ → Prop) : Prop := ∀ v s, Q s → Q (arrive v s)

/-- The rest of operation `o`, which stands on `below`, may run from where `Q` holds. -/
def Outline (below : List (Mark E Op)) (o : Op) : Native P E A → (σ → Prop) → Prop
  | .ret a, Q => Stable arrive Q ∧ (∀ s, Q s → D.inside (.caller o :: below) (.ret a) s) ∧
    ∀ s s', Q s → M.finish o a s = some s' → D.outside below s'
  | .spin, Q => Stable arrive Q ∧ ∀ s, Q s → D.inside (.caller o :: below) .spin s
  | .crash, Q => Stable arrive Q ∧ ∀ s, Q s → D.inside (.caller o :: below) .crash s
  | .prim c next, Q =>
    Stable arrive Q ∧ (∀ s, Q s → D.inside (.caller o :: below) (.prim c next) s) ∧
    ∃ R : A → σ → Prop, (∀ s a s', Q s → M.exec c s = some (a, s') → R a s') ∧
      ∀ a, (∃ s, R a s) → Outline below o (next a) (R a)
  | .enter e next, Q =>
    Stable arrive Q ∧ (∀ s, Q s → D.inside (.caller o :: below) (.enter e next) s) ∧
    (∀ s s', Q s → M.depart e s = some s' → D.outside (.pending e :: .caller o :: below) s') ∧
    ∃ R : A → σ → Prop, (∀ s a s', D.outside (.pending e :: .caller o :: below) s →
        M.deliver e a s = some s' → R a s') ∧
      ∀ a, (∃ s, R a s) → Outline below o (next a) (R a)

def Resumes (below : List (Mark E Op)) (o : Op) (e : E) (next : A → Native P E A) : Prop :=
  ∃ R : A → σ → Prop, (∀ s a s', D.outside (.pending e :: .caller o :: below) s →
      M.deliver e a s = some s' → R a s') ∧
    ∀ a, (∃ s, R a s) → M.Outline arrive D below o (next a) (R a)

def OutlinedStack : List (Frame P E A Op) → Prop
  | [] => True
  | .pending e next :: .caller o :: rest =>
    M.Resumes arrive D (marks rest) o e next ∧ OutlinedStack rest
  | _ => False

def OutlinedConfig : Config σ P E A Op → Prop
  | ⟨s, .outside, stack⟩ => D.outside (marks stack) s ∧ M.OutlinedStack arrive D stack
  | ⟨s, .native p, .caller o :: rest⟩ =>
    (∃ Q : σ → Prop, Q s ∧ M.Outline arrive D (marks rest) o p Q) ∧ M.OutlinedStack arrive D rest
  | ⟨_, .native _, _⟩ => False

/-- What is asked of the two sides: they respect the assertion they run under, and every
    operation they start has an outline. -/
structure Outlined : Prop where
  arrivals : ∀ frames, Stable arrive (D.outside frames)
  events : ∀ v frames s s', D.outside frames s → M.event v (markedContext frames) s = some s' →
    D.outside frames s'
  starts : ∀ o frames s s' p, D.outside frames s → M.caller o = M.sideOf (markedContext frames) →
    M.start o (markedContext frames) s = some (s', p) →
    ∃ Q : σ → Prop, Q s' ∧ M.Outline arrive D frames o p Q

section Rules
variable {M arrive D} {below : List (Mark E Op)} {o : Op} {Q : σ → Prop}

theorem outline_stable {p : Native P E A} (outline : M.Outline arrive D below o p Q) :
    Stable arrive Q := by
  cases p <;> exact outline.1

theorem outline_inside {p : Native P E A} {s : σ} (outline : M.Outline arrive D below o p Q)
    (here : Q s) : D.inside (.caller o :: below) p s := by
  cases p with
  | ret a => exact outline.2.1 s here
  | spin => exact outline.2 s here
  | crash => exact outline.2 s here
  | prim c next => exact outline.2.1 s here
  | enter e next => exact outline.2.1 s here

theorem outline_weaken {p : Native P E A} {Q' : σ → Prop}
    (outline : M.Outline arrive D below o p Q') (stable : Stable arrive Q)
    (stronger : ∀ s, Q s → Q' s) : M.Outline arrive D below o p Q := by
  cases p with
  | ret a =>
    exact ⟨stable, fun s here => outline.2.1 s (stronger s here),
      fun s s' here => outline.2.2 s s' (stronger s here)⟩
  | spin => exact ⟨stable, fun s here => outline.2 s (stronger s here)⟩
  | crash => exact ⟨stable, fun s here => outline.2 s (stronger s here)⟩
  | prim c next =>
    obtain ⟨-, inside, R, after, rest⟩ := outline
    exact ⟨stable, fun s here => inside s (stronger s here), R,
      fun s a s' here => after s a s' (stronger s here), rest⟩
  | enter e next =>
    obtain ⟨-, inside, leaves, resumes⟩ := outline
    exact ⟨stable, fun s here => inside s (stronger s here),
      fun s s' here => leaves s s' (stronger s here), resumes⟩

theorem arrival_outlined {v : V} {c : Config σ P E A Op} (sound : M.Outlined arrive D)
    (here : M.OutlinedConfig arrive D c) :
    M.OutlinedConfig arrive D { c with state := arrive v c.state } := by
  obtain ⟨s, control, stack⟩ := c
  cases control with
  | outside => exact ⟨sound.arrivals _ v s here.1, here.2⟩
  | native p =>
    cases stack with
    | nil => exact here.elim
    | cons frame rest =>
      cases frame with
      | pending e next => exact here.elim
      | caller o =>
        obtain ⟨⟨Q, now, outline⟩, below⟩ := here
        exact ⟨⟨Q, outline_stable outline v s now, outline⟩, below⟩

theorem step_outlined {l : Label A Op Ev} {c c' : Config σ P E A Op}
    (sound : M.Outlined arrive D) (here : M.OutlinedConfig arrive D c)
    (taken : M.step l c = some c') : M.OutlinedConfig arrive D c' := by
  cases step_taken taken with
  | @event v s s' stack acts =>
    rw [context_marks] at acts
    exact ⟨sound.events v _ s s' here.1 acts, here.2⟩
  | @call o s s' p stack called starts =>
    rw [context_marks] at called starts
    exact ⟨sound.starts o _ s s' p here.1 called starts, here.2⟩
  | @answer a e next s s' stack back =>
    obtain ⟨holds, below⟩ := here
    cases stack with
    | nil => exact below.elim
    | cons frame rest =>
      cases frame with
      | pending e' next' => exact below.elim
      | caller o =>
        obtain ⟨⟨R, answered, outline⟩, below⟩ := below
        have now := answered s a s' holds back
        exact ⟨⟨R a, now, outline a ⟨s', now⟩⟩, below⟩
  | @prim q next a s s' stack acts =>
    cases stack with
    | nil => exact here.elim
    | cons frame rest =>
      cases frame with
      | pending e next => exact here.elim
      | caller o =>
        obtain ⟨⟨Q, now, -, -, R, after, later⟩, below⟩ := here
        have next' := after s a s' now acts
        exact ⟨⟨R a, next', later a ⟨s', next'⟩⟩, below⟩
  | @depart e next s s' stack leaves =>
    cases stack with
    | nil => exact here.elim
    | cons frame rest =>
      cases frame with
      | pending e next => exact here.elim
      | caller o =>
        obtain ⟨⟨Q, now, -, -, intact, resumes⟩, below⟩ := here
        exact ⟨intact s s' now leaves, resumes, below⟩
  | @finish o a s s' stack done =>
    obtain ⟨⟨Q, now, outline⟩, below⟩ := here
    exact ⟨outline.2.2 s s' now done, below⟩

theorem turns_outlined {ts : List (Turn A Op Ev V)} {c d : Config σ P E A Op}
    (sound : M.Outlined arrive D) (here : M.OutlinedConfig arrive D c)
    (ran : M.turns arrive ts c = some d) : M.OutlinedConfig arrive D d :=
  turns_invariant (M.OutlinedConfig arrive D) (fun t _ _ start taken => by
    cases t with
    | step l => exact step_outlined sound start taken
    | arrival v =>
      cases taken
      exact arrival_outlined sound start) here ran

theorem outlined_inside {c : Config σ P E A Op} {p : Native P E A}
    (here : M.OutlinedConfig arrive D c) (running : c.control = .native p) :
    ∃ o rest, c.stack = .caller o :: rest ∧ D.inside (marks c.stack) p c.state := by
  obtain ⟨s, control, stack⟩ := c
  cases running
  cases stack with
  | nil => exact here.elim
  | cons frame rest =>
    cases frame with
    | pending e next => exact here.elim
    | caller o =>
      obtain ⟨⟨Q, now, outline⟩, -⟩ := here
      exact ⟨o, rest, rfl, outline_inside outline now⟩

end Rules
end Bridge
end ReentrantMachine
