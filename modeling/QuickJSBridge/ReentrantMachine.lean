import QuickJSBridge.HostProgram

/- Native programs that two outside sides, a host and an engine, call into and are called
   from, to any depth. The machine keeps the suspended programs on a stack; whatever
   runs outside acts by events, starts native programs and answers the topmost call. -/
namespace ReentrantMachine
open HostProgram

inductive Side where
  | host
  | engine
  deriving DecidableEq

abbrev Native (P E A : Type) := Prog P E A A

variable {σ P E A Op Ev : Type}

/-- What the two sides and the native code may do to the shared state. A step without a
    result cannot be taken. The optional call in `start` and `event` is the pending call
    the step is taken inside of. -/
structure Bridge (σ P E A Op Ev : Type) where
  exec : P → σ → Option (A × σ)
  side : E → Side
  depart : E → σ → Option σ
  deliver : E → A → σ → Option σ
  caller : Op → Side
  start : Op → Option E → σ → Option (σ × Native P E A)
  finish : Op → A → σ → Option σ
  event : Ev → Option E → σ → Option σ

inductive Frame (P E A Op : Type) where
  | pending (e : E) (next : A → Native P E A)
  | caller (o : Op)

inductive Control (P E A : Type) where
  | outside
  | native (p : Native P E A)

structure Config (σ P E A Op : Type) where
  state : σ
  control : Control P E A
  stack : List (Frame P E A Op)

inductive Label (A Op Ev : Type) where
  | event (v : Ev)
  | call (o : Op)
  | tau
  | answer (a : A)

/-- What one step does to the state, whatever the programs around it are. -/
inductive Action (P E A Op Ev : Type) where
  | prim (c : P)
  | depart (e : E)
  | deliver (e : E) (a : A)
  | start (o : Op)
  | finish (o : Op) (a : A)
  | event (v : Ev)

/-- An action at the moment it is taken. -/
structure Moment (σ P E A Op Ev : Type) where
  action : Action P E A Op Ev
  context : Option E
  before : σ

/-- The call that whatever runs outside is inside of. -/
def context : List (Frame P E A Op) → Option E
  | .pending e _ :: _ => some e
  | _ => none

def moment : Label A Op Ev → Config σ P E A Op → Option (Moment σ P E A Op Ev)
  | .event v, ⟨s, .outside, stack⟩ => some ⟨.event v, context stack, s⟩
  | .call o, ⟨s, .outside, stack⟩ => some ⟨.start o, context stack, s⟩
  | .answer a, ⟨s, .outside, .pending e _ :: stack⟩ => some ⟨.deliver e a, context stack, s⟩
  | .tau, ⟨s, .native (.prim c _), stack⟩ => some ⟨.prim c, context stack, s⟩
  | .tau, ⟨s, .native (.enter e _), stack⟩ => some ⟨.depart e, context stack, s⟩
  | .tau, ⟨s, .native (.ret a), .caller o :: stack⟩ => some ⟨.finish o a, context stack, s⟩
  | _, _ => none

theorem moment_prim {l : Label A Op Ev} {c : Config σ P E A Op} {m : Moment σ P E A Op Ev} {q : P}
    (named : moment l c = some m) (acts : m.action = .prim q) :
    ∃ next, c.control = .native (.prim q next) := by
  unfold moment at named
  split at named <;> cases named <;> cases acts
  exact ⟨_, rfl⟩

theorem moment_event {l : Label A Op Ev} {c : Config σ P E A Op} {m : Moment σ P E A Op Ev} {v : Ev}
    (named : moment l c = some m) (acts : m.action = .event v) :
    l = .event v ∧ c.control = .outside := by
  unfold moment at named
  split at named <;> cases named <;> cases acts
  exact ⟨rfl, rfl⟩

namespace Bridge
variable (M : Bridge σ P E A Op Ev)

def sideOf : Option E → Side
  | none => .host
  | some e => M.side e

def step : Label A Op Ev → Config σ P E A Op → Option (Config σ P E A Op)
  | .event v, ⟨s, .outside, stack⟩ =>
    (M.event v (context stack) s).map fun s' => ⟨s', .outside, stack⟩
  | .call o, ⟨s, .outside, stack⟩ =>
    if M.caller o = M.sideOf (context stack) then
      (M.start o (context stack) s).map fun (s', p) => ⟨s', .native p, .caller o :: stack⟩
    else none
  | .answer a, ⟨s, .outside, .pending e next :: stack⟩ =>
    (M.deliver e a s).map fun s' => ⟨s', .native (next a), stack⟩
  | .tau, ⟨s, .native (.prim c next), stack⟩ =>
    (M.exec c s).map fun (a, s') => ⟨s', .native (next a), stack⟩
  | .tau, ⟨s, .native (.enter e next), stack⟩ =>
    (M.depart e s).map fun s' => ⟨s', .outside, .pending e next :: stack⟩
  | .tau, ⟨s, .native (.ret a), .caller o :: stack⟩ =>
    (M.finish o a s).map fun s' => ⟨s', .outside, stack⟩
  | _, _ => none

/-- What a step can be. -/
inductive Stepped : Label A Op Ev → Config σ P E A Op → Config σ P E A Op → Prop where
  | event {v : Ev} {s s' : σ} {stack : List (Frame P E A Op)}
      (acts : M.event v (context stack) s = some s') :
      Stepped (.event v) ⟨s, .outside, stack⟩ ⟨s', .outside, stack⟩
  | call {o : Op} {s s' : σ} {p : Native P E A} {stack : List (Frame P E A Op)}
      (called : M.caller o = M.sideOf (context stack))
      (starts : M.start o (context stack) s = some (s', p)) :
      Stepped (.call o) ⟨s, .outside, stack⟩ ⟨s', .native p, .caller o :: stack⟩
  | answer {a : A} {e : E} {next : A → Native P E A} {s s' : σ} {stack : List (Frame P E A Op)}
      (back : M.deliver e a s = some s') :
      Stepped (.answer a) ⟨s, .outside, .pending e next :: stack⟩ ⟨s', .native (next a), stack⟩
  | prim {q : P} {next : A → Native P E A} {a : A} {s s' : σ} {stack : List (Frame P E A Op)}
      (acts : M.exec q s = some (a, s')) :
      Stepped .tau ⟨s, .native (.prim q next), stack⟩ ⟨s', .native (next a), stack⟩
  | depart {e : E} {next : A → Native P E A} {s s' : σ} {stack : List (Frame P E A Op)}
      (leaves : M.depart e s = some s') :
      Stepped .tau ⟨s, .native (.enter e next), stack⟩ ⟨s', .outside, .pending e next :: stack⟩
  | finish {o : Op} {a : A} {s s' : σ} {stack : List (Frame P E A Op)}
      (done : M.finish o a s = some s') :
      Stepped .tau ⟨s, .native (.ret a), .caller o :: stack⟩ ⟨s', .outside, stack⟩

/-- The state after an action. -/
def perform (m : Moment σ P E A Op Ev) : Option σ :=
  match m.action with
  | .prim c => (M.exec c m.before).map Prod.snd
  | .depart e => M.depart e m.before
  | .deliver e a => M.deliver e a m.before
  | .start o => (M.start o m.context m.before).map Prod.fst
  | .finish o a => M.finish o a m.before
  | .event v => M.event v m.context m.before

def run : List (Label A Op Ev) → Config σ P E A Op → Option (Config σ P E A Op)
  | [], c => some c
  | l :: labels, c => (M.step l c).bind (run labels)

/-- The actions taken along a run. -/
def history : List (Label A Op Ev) → Config σ P E A Op → List (Moment σ P E A Op Ev)
  | [], _ => []
  | l :: labels, c =>
    match M.step l c with
    | none => []
    | some c' => (moment l c).toList ++ history labels c'

/-- The states a run goes through. -/
def visited : List (Label A Op Ev) → Config σ P E A Op → List σ
  | [], c => [c.state]
  | l :: labels, c =>
    match M.step l c with
    | none => [c.state]
    | some c' => c.state :: visited labels c'

/-- Every action taken along the run is allowed. -/
def Respects (allow : Moment σ P E A Op Ev → Prop) (labels : List (Label A Op Ev))
    (c : Config σ P E A Op) : Prop :=
  ∀ m ∈ M.history labels c, allow m

section Steps
variable {M}

theorem step_taken {l : Label A Op Ev} {c c' : Config σ P E A Op} (taken : M.step l c = some c') :
    M.Stepped l c c' := by
  unfold step at taken
  split at taken
  · obtain ⟨s', acts, rfl⟩ := Option.map_eq_some_iff.1 taken
    exact .event acts
  · split at taken
    next called =>
      obtain ⟨x, starts, rfl⟩ := Option.map_eq_some_iff.1 taken
      exact .call called starts
    next => cases taken
  · obtain ⟨s', back, rfl⟩ := Option.map_eq_some_iff.1 taken
    exact .answer back
  · obtain ⟨x, acts, rfl⟩ := Option.map_eq_some_iff.1 taken
    exact .prim acts
  · obtain ⟨s', leaves, rfl⟩ := Option.map_eq_some_iff.1 taken
    exact .depart leaves
  · obtain ⟨s', done, rfl⟩ := Option.map_eq_some_iff.1 taken
    exact .finish done
  · cases taken

theorem step_performs {l : Label A Op Ev} {c c' : Config σ P E A Op}
    (taken : M.step l c = some c') :
    ∃ m, moment l c = some m ∧ m.before = c.state ∧ M.perform m = some c'.state := by
  cases step_taken taken with
  | event acts => exact ⟨_, rfl, rfl, acts⟩
  | call called starts => exact ⟨_, rfl, rfl, by simp [perform, starts]⟩
  | answer back => exact ⟨_, rfl, rfl, back⟩
  | prim acts => exact ⟨_, rfl, rfl, by simp [perform, acts]⟩
  | depart leaves => exact ⟨_, rfl, rfl, leaves⟩
  | finish done => exact ⟨_, rfl, rfl, done⟩

theorem run_cons {l : Label A Op Ev} {labels : List (Label A Op Ev)} {c d : Config σ P E A Op}
    (ran : M.run (l :: labels) c = some d) :
    ∃ c', M.step l c = some c' ∧ M.run labels c' = some d :=
  Option.bind_eq_some_iff.1 ran

theorem run_append (first second : List (Label A Op Ev)) (c : Config σ P E A Op) :
    M.run (first ++ second) c = (M.run first c).bind (M.run second) := by
  induction first generalizing c with
  | nil => rfl
  | cons l first ih =>
    simp only [List.cons_append, run, Option.bind_assoc]
    congr 1
    funext c'
    exact ih c'

theorem history_cons {l : Label A Op Ev} {labels : List (Label A Op Ev)}
    {c c' : Config σ P E A Op} (taken : M.step l c = some c') :
    M.history (l :: labels) c = (moment l c).toList ++ M.history labels c' := by
  simp [history, taken]

theorem respects_of_all {check : Moment σ P E A Op Ev → Bool} {labels : List (Label A Op Ev)}
    {c : Config σ P E A Op} (all : (M.history labels c).all check = true) :
    M.Respects (check · = true) labels c :=
  List.all_eq_true.1 all

theorem respects_cons {allow : Moment σ P E A Op Ev → Prop} {l : Label A Op Ev}
    {labels : List (Label A Op Ev)} {c c' : Config σ P E A Op} (taken : M.step l c = some c')
    (respects : M.Respects allow (l :: labels) c) :
    (∀ m, moment l c = some m → allow m) ∧ M.Respects allow labels c' := by
  unfold Respects at respects
  rw [history_cons taken] at respects
  constructor
  · intro m here
    exact respects m (List.mem_append_left _ (by simp [here]))
  · intro m later
    exact respects m (List.mem_append_right _ later)

end Steps

section Invariants
variable {M} {allow : Moment σ P E A Op Ev → Prop}

theorem run_invariant (inv : Config σ P E A Op → Prop)
    (kept : ∀ l c c', inv c → (∀ m, moment l c = some m → allow m) →
      M.step l c = some c' → inv c')
    {labels : List (Label A Op Ev)} {c d : Config σ P E A Op} (start : inv c)
    (respects : M.Respects allow labels c) (ran : M.run labels c = some d) : inv d := by
  induction labels generalizing c with
  | nil =>
    cases ran
    exact start
  | cons l labels ih =>
    obtain ⟨c', taken, rest⟩ := run_cons ran
    obtain ⟨here, later⟩ := respects_cons taken respects
    exact ih (kept l c c' start here taken) later rest

theorem history_invariant (inv : Config σ P E A Op → Prop)
    (kept : ∀ l c c', inv c → M.step l c = some c' → inv c')
    {labels : List (Label A Op Ev)} {c : Config σ P E A Op} {m : Moment σ P E A Op Ev}
    (start : inv c) (taken : m ∈ M.history labels c) :
    ∃ l d, inv d ∧ moment l d = some m ∧ m.before = d.state := by
  induction labels generalizing c with
  | nil => cases taken
  | cons l labels ih =>
    cases step : M.step l c with
    | none => simp [history, step] at taken
    | some c' =>
      obtain ⟨m', named, before, -⟩ := step_performs step
      rw [history_cons step, named] at taken
      rcases List.mem_cons.1 taken with here | later
      · subst here
        exact ⟨l, c, start, named, before⟩
      · exact ih (kept l c c' start step) later

theorem state_visited (labels : List (Label A Op Ev)) (c : Config σ P E A Op) :
    c.state ∈ M.visited labels c := by
  cases labels with
  | nil => exact List.mem_singleton.2 rfl
  | cons l labels =>
    unfold visited
    split
    · exact List.mem_singleton.2 rfl
    · exact List.mem_cons_self

theorem run_visited {labels : List (Label A Op Ev)} {c d : Config σ P E A Op}
    (ran : M.run labels c = some d) : d.state ∈ M.visited labels c := by
  induction labels generalizing c with
  | nil =>
    cases ran
    exact List.mem_singleton.2 rfl
  | cons l labels ih =>
    obtain ⟨c', taken, rest⟩ := run_cons ran
    simp only [visited, taken]
    exact List.mem_cons_of_mem _ (ih rest)

/-- Where `allow` says exactly which steps keep `J`, a run satisfies `J` throughout exactly
    when all its steps are allowed. -/
theorem visited_iff_respects (inv : Config σ P E A Op → Prop) (J : σ → Prop)
    (kept : ∀ l c c', inv c → M.step l c = some c' → inv c')
    (exact : ∀ l c c' m, inv c → M.step l c = some c' → moment l c = some m → J c.state →
      (J c'.state ↔ allow m))
    {labels : List (Label A Op Ev)} {c : Config σ P E A Op} (start : inv c) (now : J c.state) :
    (∀ s ∈ M.visited labels c, J s) ↔ M.Respects allow labels c := by
  induction labels generalizing c with
  | nil => simp [visited, Respects, history, now]
  | cons l labels ih =>
    unfold Respects
    cases taken : M.step l c with
    | none => simp [visited, history, taken, now]
    | some c' =>
      obtain ⟨m, named, -, -⟩ := step_performs taken
      have here := exact l c c' m start taken named now
      rw [history_cons taken, named]
      simp only [visited, taken, List.forall_mem_cons, now, true_and, Option.toList_some,
        List.singleton_append]
      constructor
      · intro holds
        have next : J c'.state := holds _ (state_visited labels c')
        exact ⟨here.1 next, (ih (kept l c c' start taken) next).1 holds⟩
      · rintro ⟨allowed, later⟩
        exact (ih (kept l c c' start taken) (here.2 allowed)).2 later

end Invariants

end Bridge
end ReentrantMachine
