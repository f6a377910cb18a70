import QuickJSBridge.ReentrantMachine

/- Uses that programs under way may still make of something they rely on: until a program has made
   sure of it again, it waits for it, also while it is suspended. Steps that could take the thing
   away can then be told from those that take it from nobody. -/
namespace HostProgram

variable {σ P E A R S : Type}

/-- What uses a thing, and what makes sure of it. The answers are those a primitive can give. -/
structure Watch (P E A : Type) where
  answers : P → A → Prop
  uses : P → Prop
  calls : E → Prop
  secures : P → Prop
  securedBy : E → Prop

namespace Prog

/-- The program makes sure of the thing before it uses it, and ends in `Q` unless it has. -/
def Spares (W : Watch P E A) : Prog P E A R → (R → Prop) → Prop
  | .ret r, Q => Q r
  | .spin, _ => True
  | .crash, _ => True
  | .prim c next, Q => W.secures c ∨ (¬ W.uses c ∧ ∀ a, W.answers c a → (next a).Spares W Q)
  | .enter e next, Q => W.securedBy e ∨ (¬ W.calls e ∧ ∀ a, (next a).Spares W Q)

variable {W : Watch P E A} {Q : R → Prop}

theorem spares_bind {p : Prog P E A S} {f : S → Prog P E A R} {M : S → Prop}
    (first : p.Spares W M) (rest : ∀ s, M s → (f s).Spares W Q) : (p.bind f).Spares W Q := by
  induction p with
  | ret s => exact rest s first
  | spin => trivial
  | crash => trivial
  | prim c next ih =>
    rcases first with secured | ⟨unused, first⟩
    · exact Or.inl secured
    · exact Or.inr ⟨unused, fun a may => ih a (first a may)⟩
  | enter e next ih =>
    rcases first with secured | ⟨unused, first⟩
    · exact Or.inl secured
    · exact Or.inr ⟨unused, fun a => ih a (first a)⟩

theorem spares_after {p : Prog P E A S} {f : S → Prog P E A R} (first : p.Spares W fun _ => True)
    (rest : ∀ s, (f s).Spares W Q) : (p.bind f).Spares W Q :=
  spares_bind first fun s _ => rest s

theorem spares_within {p : Prog P E A R} {prims : P → Prop} {calls : E → Prop}
    (within : p.Within prims calls) (unused : ∀ c, prims c → ¬ W.uses c)
    (uncalled : ∀ e, calls e → ¬ W.calls e) : p.Spares W fun _ => True := by
  induction p with
  | ret r => trivial
  | spin => trivial
  | crash => trivial
  | prim c next ih => exact Or.inr ⟨unused c within.1, fun a _ => ih a (within.2 a)⟩
  | enter e next ih => exact Or.inr ⟨uncalled e within.1, fun a => ih a (within.2 a)⟩

end Prog
end HostProgram

namespace ReentrantMachine
open HostProgram

variable {σ P E A Op Ev : Type}

namespace Bridge
variable (M : Bridge σ P E A Op Ev) (W : Watch P E A)

def SparedStack : List (Frame P E A Op) → Prop
  | [] => True
  | .pending _ next :: rest => (∀ a, (next a).Spares W fun _ => True) ∧ SparedStack rest
  | .caller _ :: rest => SparedStack rest

def Spared : Config σ P E A Op → Prop
  | ⟨_, .outside, stack⟩ => SparedStack W stack
  | ⟨_, .native p, stack⟩ => (p.Spares W fun _ => True) ∧ SparedStack W stack

variable {M W}

/-- Unless it makes sure of the thing or starts a program that waits for it, a step leaves no
    program behind that does. -/
theorem step_spared {l : Label A Op Ev} {c c' : Config σ P E A Op}
    (possible : ∀ q a s', M.exec q c.state = some (a, s') → W.answers q a)
    (taken : M.step l c = some c') (spared : Spared W c)
    (secures : ∀ q next, c.control = .native (.prim q next) → ¬ W.secures q)
    (securedBy : ∀ e next, c.control = .native (.enter e next) → ¬ W.securedBy e)
    (starts : ∀ o ctx s' p, l = .call o → M.start o ctx c.state = some (s', p) →
      p.Spares W fun _ => True) : Spared W c' := by
  cases step_taken taken with
  | event acts => exact spared
  | call called start => exact ⟨starts _ _ _ _ rfl start, spared⟩
  | answer back => exact ⟨spared.1 _, spared.2⟩
  | @prim q next a s s' stack acts =>
    rcases spared.1 with secured | ⟨-, later⟩
    · exact absurd secured (secures q next rfl)
    · exact ⟨later a (possible q a s' acts), spared.2⟩
  | @depart e next s s' stack leaves =>
    rcases spared.1 with secured | ⟨-, later⟩
    · exact absurd secured (securedBy e next rfl)
    · exact ⟨later, spared.2⟩
  | finish done => exact spared.2

theorem moment_running {l : Label A Op Ev} {c : Config σ P E A Op} {m : Moment σ P E A Op Ev}
    (named : moment l c = some m) :
    (∀ q next, c.control = .native (.prim q next) → m.action = .prim q) ∧
    ∀ e next, c.control = .native (.enter e next) → m.action = .depart e := by
  obtain ⟨s, control, stack⟩ := c
  constructor
  · rintro q next rfl
    cases l <;> cases named
    rfl
  · rintro e next rfl
    cases l <;> cases named
    rfl

theorem spared_unused {c : Config σ P E A Op} {q : P} {next : A → Native P E A} (spared : Spared W c)
    (running : c.control = .native (.prim q next)) (secures : ¬ W.secures q) : ¬ W.uses q := by
  obtain ⟨s, control, stack⟩ := c
  cases running
  rcases spared.1 with secured | ⟨unused, -⟩
  · exact absurd secured secures
  · exact unused

/-- Every step of the run is one that is allowed where it is taken. -/
def Permits (M : Bridge σ P E A Op Ev)
    (allow : Config σ P E A Op → Moment σ P E A Op Ev → Prop) :
    List (Label A Op Ev) → Config σ P E A Op → Prop
  | [], _ => True
  | l :: labels, c =>
    match M.step l c with
    | none => True
    | some c' => (∀ m, moment l c = some m → allow c m) ∧ Permits M allow labels c'

theorem permits_append {allow : Config σ P E A Op → Moment σ P E A Op Ev → Prop}
    {first second : List (Label A Op Ev)} {c d : Config σ P E A Op} (ran : M.run first c = some d)
    (before : M.Permits allow first c) (after : M.Permits allow second d) :
    M.Permits allow (first ++ second) c := by
  induction first generalizing c with
  | nil =>
    cases ran
    exact after
  | cons l first ih =>
    obtain ⟨c', taken, rest⟩ := run_cons ran
    simp only [List.cons_append, Permits, taken] at before ⊢
    exact ⟨before.1, ih rest before.2⟩

theorem permits_of_respects {allow : Config σ P E A Op → Moment σ P E A Op Ev → Prop}
    {free : Moment σ P E A Op Ev → Prop} (allowed : ∀ c m, free m → allow c m)
    {labels : List (Label A Op Ev)} {c : Config σ P E A Op} (respects : M.Respects free labels c) :
    M.Permits allow labels c := by
  induction labels generalizing c with
  | nil => trivial
  | cons l labels ih =>
    unfold Permits
    cases taken : M.step l c with
    | none => trivial
    | some c' =>
      obtain ⟨here, later⟩ := respects_cons taken respects
      exact ⟨fun m named => allowed c m (here m named), ih later⟩

theorem visited_permits {allow : Config σ P E A Op → Moment σ P E A Op Ev → Prop}
    (inv : Config σ P E A Op → Prop)
    (kept : ∀ l c c' m, inv c → M.step l c = some c' → moment l c = some m → allow c m → inv c')
    {labels : List (Label A Op Ev)} {c : Config σ P E A Op} (start : inv c)
    (permits : M.Permits allow labels c) {s : σ} (seen : s ∈ M.visited labels c) :
    ∃ d, inv d ∧ d.state = s := by
  induction labels generalizing c with
  | nil =>
    cases List.mem_singleton.1 seen
    exact ⟨c, start, rfl⟩
  | cons l labels ih =>
    unfold visited at seen
    unfold Permits at permits
    cases taken : M.step l c with
    | none =>
      rw [taken] at seen
      cases List.mem_singleton.1 seen
      exact ⟨c, start, rfl⟩
    | some c' =>
      rw [taken] at seen permits
      obtain ⟨m, named, -, -⟩ := step_performs taken
      rcases List.mem_cons.1 seen with rfl | later
      · exact ⟨c, start, rfl⟩
      · exact ih (kept l c c' m start taken named (permits.1 m named)) permits.2 later

section Notes
variable {N : Type} (M : Bridge σ P E A Op Ev) (note : Op → σ → N)

def noted (m : Moment σ P E A Op Ev) (notes : List N) : List N :=
  match m.action with
  | .start o => note o m.before :: notes
  | .finish _ _ => notes.tail
  | _ => notes

/-- Every step of the run is allowed where it is taken, with what was noted when the operations
    under way were started. -/
def PermitsNoted (allow : List N → Config σ P E A Op → Moment σ P E A Op Ev → Prop) :
    List (Label A Op Ev) → List N → Config σ P E A Op → Prop
  | [], _, _ => True
  | l :: labels, notes, c =>
    match M.step l c with
    | none => True
    | some c' => ∀ m, moment l c = some m →
      allow notes c m ∧ PermitsNoted allow labels (noted note m notes) c'

def NotedStack (good : N → Native P E A → Prop) : List N → List (Frame P E A Op) → Prop
  | _, [] => True
  | n :: notes, .pending _ next :: rest => (∀ a, good n (next a)) ∧ NotedStack good (n :: notes) rest
  | _ :: notes, .caller _ :: rest => NotedStack good notes rest
  | [], _ :: _ => False

def Noted (good : N → Native P E A → Prop) : List N → Config σ P E A Op → Prop
  | notes, ⟨_, .outside, stack⟩ => NotedStack good notes stack
  | n :: notes, ⟨_, .native p, stack⟩ => good n p ∧ NotedStack good (n :: notes) stack
  | [], ⟨_, .native _, _⟩ => False

variable {M note}

/-- What holds of a program when its operation starts, and after each command and call it has
    made, holds of all programs along a run. -/
theorem step_noted {good : N → Native P E A → Prop} {notes : List N} {l : Label A Op Ev}
    {c c' : Config σ P E A Op} {m : Moment σ P E A Op Ev} (taken : M.step l c = some c')
    (named : moment l c = some m) (holds : Noted good notes c)
    (prim : ∀ n q next a s', good n (.prim q next) → M.exec q c.state = some (a, s') → good n (next a))
    (enter : ∀ n e next, good n (.enter e next) → ∀ a, good n (next a))
    (starts : ∀ o ctx s' p, M.start o ctx c.state = some (s', p) → good (note o c.state) p) :
    Noted good (noted note m notes) c' := by
  cases step_taken taken with
  | event acts =>
    cases named
    exact holds
  | call called start =>
    cases named
    exact ⟨starts _ _ _ _ start, holds⟩
  | @answer a e next s s' stack back =>
    cases named
    cases notes with
    | nil => exact holds.elim
    | cons n notes => exact ⟨holds.1 a, holds.2⟩
  | @prim q next a s s' stack acts =>
    cases named
    cases notes with
    | nil => exact holds.elim
    | cons n notes => exact ⟨prim n q next a s' holds.1 acts, holds.2⟩
  | @depart e next s s' stack leaves =>
    cases named
    cases notes with
    | nil => exact holds.elim
    | cons n notes => exact ⟨enter n e next holds.1, holds.2⟩
  | finish done =>
    cases named
    cases notes with
    | nil => exact holds.elim
    | cons n notes => exact holds.2

theorem noted_running {good : N → Native P E A → Prop} {notes : List N} {c : Config σ P E A Op}
    {p : Native P E A} (holds : Noted good notes c) (running : c.control = .native p) :
    ∃ n, notes.head? = some n ∧ good n p := by
  obtain ⟨s, control, stack⟩ := c
  cases running
  cases notes with
  | nil => exact holds.elim
  | cons n notes => exact ⟨n, rfl, holds.1⟩

theorem permitsNoted_of_respects {allow : List N → Config σ P E A Op → Moment σ P E A Op Ev → Prop}
    {free : Moment σ P E A Op Ev → Prop}
    (allowed : ∀ notes c m, m.before = c.state → free m → allow notes c m)
    {labels : List (Label A Op Ev)} {notes : List N} {c : Config σ P E A Op}
    (respects : M.Respects free labels c) : M.PermitsNoted note allow labels notes c := by
  induction labels generalizing notes c with
  | nil => trivial
  | cons l labels ih =>
    unfold PermitsNoted
    cases taken : M.step l c with
    | none => trivial
    | some c' =>
      obtain ⟨here, later⟩ := respects_cons taken respects
      intro m named
      obtain ⟨m', named', same, -⟩ := step_performs taken
      cases named.symm.trans named'
      exact ⟨allowed notes c m same (here m named), ih later⟩

theorem visited_permitsNoted {allow : List N → Config σ P E A Op → Moment σ P E A Op Ev → Prop}
    (inv : List N → Config σ P E A Op → Prop)
    (kept : ∀ l notes c c' m, inv notes c → M.step l c = some c' → moment l c = some m →
      allow notes c m → inv (noted note m notes) c')
    {labels : List (Label A Op Ev)} {notes : List N} {c : Config σ P E A Op} (start : inv notes c)
    (permits : M.PermitsNoted note allow labels notes c) {s : σ} (seen : s ∈ M.visited labels c) :
    ∃ notes d, inv notes d ∧ d.state = s := by
  induction labels generalizing notes c with
  | nil =>
    cases List.mem_singleton.1 seen
    exact ⟨notes, c, start, rfl⟩
  | cons l labels ih =>
    unfold visited at seen
    unfold PermitsNoted at permits
    cases taken : M.step l c with
    | none =>
      rw [taken] at seen
      cases List.mem_singleton.1 seen
      exact ⟨notes, c, start, rfl⟩
    | some c' =>
      rw [taken] at seen permits
      obtain ⟨m, named, -, -⟩ := step_performs taken
      obtain ⟨allowed, later⟩ := permits m named
      rcases List.mem_cons.1 seen with rfl | after
      · exact ⟨notes, c, start, rfl⟩
      · exact ih (kept l notes c c' m start taken named allowed) later after

end Notes

end Bridge
end ReentrantMachine
