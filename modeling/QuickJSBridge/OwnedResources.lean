import Mathlib
import QuickJSBridge.Sessions

/- Invariants with resources. An invariant may mention what suspended programs own; each
   program is verified once, for whatever the programs below it own, and gives up at
   every call only what it says it keeps. Nested programs may do anything in between that
   keeps the invariant. -/
namespace ReentrantMachine
open HostProgram

variable {σ P E A Op Ev R S G : Type} [AddCommMonoid G]

namespace Bridge
variable (M : Bridge σ P E A Op Ev)

section Safety
variable (I : G → σ → Prop) (J : σ → Prop)

/-- From this state the program keeps `J`, satisfies `Q` where it returns, and at each
    call leaves the invariant intact for some resources of its own beside those of the
    frame below. -/
def Safe (below : G) (Q : R → σ → Prop) : Prog P E A R → σ → Prop
  | .ret r, s => Q r s
  | .spin, _ => True
  | .crash, _ => True
  | .prim c next, s => ∀ a s', M.exec c s = some (a, s') → J s' ∧ Safe below Q (next a) s'
  | .enter e next, s => ∃ kept, (∀ s₁, M.depart e s = some s₁ → I (below + kept) s₁) ∧
      ∀ a s₂ s₃, I (below + kept) s₂ → M.deliver e a s₂ = some s₃ →
        J s₃ ∧ Safe below Q (next a) s₃

variable {M I J}

theorem safe_mono {below : G} {Q Q' : R → σ → Prop} {p : Prog P E A R} {s : σ}
    (weaker : ∀ r t, Q r t → Q' r t) (safe : M.Safe I J below Q p s) :
    M.Safe I J below Q' p s := by
  induction p generalizing s with
  | ret r => exact weaker r s safe
  | spin => trivial
  | crash => trivial
  | prim c next ih => exact fun a s' acts => ⟨(safe a s' acts).1, ih a (safe a s' acts).2⟩
  | enter e next ih =>
    obtain ⟨kept, leaves, returns⟩ := safe
    refine ⟨kept, leaves, fun a s₂ s₃ held back => ?_⟩
    exact ⟨(returns a s₂ s₃ held back).1, ih a (returns a s₂ s₃ held back).2⟩

theorem safe_bind {below : G} {Q : S → σ → Prop} {p : Prog P E A R} {f : R → Prog P E A S}
    {s : σ} (safe : M.Safe I J below (fun r t => M.Safe I J below Q (f r) t) p s) :
    M.Safe I J below Q (p.bind f) s := by
  induction p generalizing s with
  | ret r => exact safe
  | spin => trivial
  | crash => trivial
  | prim c next ih => exact fun a s' acts => ⟨(safe a s' acts).1, ih a (safe a s' acts).2⟩
  | enter e next ih =>
    obtain ⟨kept, leaves, returns⟩ := safe
    refine ⟨kept, leaves, fun a s₂ s₃ held back => ?_⟩
    exact ⟨(returns a s₂ s₃ held back).1, ih a (returns a s₂ s₃ held back).2⟩

end Safety

variable (I : G → σ → Prop) (J : σ → Prop) (allow : Moment σ P E A Op Ev → Prop)

/-- What has to be shown once for each event and each native program. -/
structure Guarded : Prop where
  seen : ∀ g s, I g s → J s
  event : ∀ g v ctx s s', I g s → allow ⟨.event v, ctx, s⟩ → M.event v ctx s = some s' → I g s'
  program : ∀ g o ctx s s' p, I g s → allow ⟨.start o, ctx, s⟩ →
    M.start o ctx s = some (s', p) →
    J s' ∧ M.Safe I J g (fun a t => ∀ t', M.finish o a t = some t' → I g t') p s'

def Owned : List (Frame P E A Op) → G → Prop
  | [], total => total = 0
  | .pending e next :: .caller o :: rest, total => ∃ below kept, total = below + kept ∧
      (∀ a s₂ s₃, I total s₂ → M.deliver e a s₂ = some s₃ → J s₃ ∧
        M.Safe I J below (fun a t => ∀ t', M.finish o a t = some t' → I below t') (next a) s₃) ∧
      Owned rest below
  | _, _ => False

def SafeConfig (c : Config σ P E A Op) : Prop :=
  match c.control with
  | .outside => ∃ total, M.Owned I J c.stack total ∧ I total c.state
  | .native p => ∃ o rest below, c.stack = .caller o :: rest ∧ M.Owned I J rest below ∧
      J c.state ∧
      M.Safe I J below (fun a t => ∀ t', M.finish o a t = some t' → I below t') p c.state

variable {M I J allow}

theorem step_safe (guarded : M.Guarded I J allow) {l : Label A Op Ev}
    {c c' : Config σ P E A Op} (safe : M.SafeConfig I J c)
    (permitted : ∀ m, moment l c = some m → allow m) (taken : M.step l c = some c') :
    M.SafeConfig I J c' := by
  cases step_taken taken with
  | event acts =>
    obtain ⟨total, owned, held⟩ := safe
    exact ⟨total, owned, guarded.event total _ _ _ _ held (permitted _ rfl) acts⟩
  | @call o s s' p stack called starts =>
    obtain ⟨total, owned, held⟩ := safe
    obtain ⟨seen, body⟩ := guarded.program total o _ s s' p held (permitted _ rfl) starts
    exact ⟨o, stack, total, rfl, owned, seen, body⟩
  | @answer a e next s s' stack back =>
    obtain ⟨total, owned, held⟩ := safe
    cases stack with
    | nil => exact owned.elim
    | cons frame rest =>
      cases frame with
      | pending e' next' => exact owned.elim
      | caller o =>
        obtain ⟨below, kept, rfl, resumes, owned'⟩ := owned
        obtain ⟨seen, body⟩ := resumes a s s' held back
        exact ⟨o, rest, below, rfl, owned', seen, body⟩
  | @prim q next a s s' stack acts =>
    obtain ⟨o, rest, below, rfl, owned, -, body⟩ := safe
    obtain ⟨seen, body⟩ := body a s' acts
    exact ⟨o, rest, below, rfl, owned, seen, body⟩
  | @depart e next s s' stack leaves =>
    obtain ⟨o, rest, below, rfl, owned, -, kept, intact, returns⟩ := safe
    exact ⟨below + kept, ⟨below, kept, rfl, returns, owned⟩, intact s' leaves⟩
  | @finish o a s s' stack done =>
    obtain ⟨o, rest, below, same, owned, -, body⟩ := safe
    cases same
    exact ⟨below, owned, body s' done⟩

theorem run_guarded (guarded : M.Guarded I J allow) {labels : List (Label A Op Ev)} {s : σ}
    {d : Config σ P E A Op} (start : I 0 s) (respects : M.Respects allow labels ⟨s, .outside, []⟩)
    (ran : M.run labels ⟨s, .outside, []⟩ = some d) : J d.state := by
  have first : M.SafeConfig I J ⟨s, .outside, []⟩ := ⟨0, rfl, start⟩
  have last : M.SafeConfig I J d :=
    run_invariant (M.SafeConfig I J) (fun _ _ _ safe => step_safe guarded safe) first respects ran
  obtain ⟨t, control, stack⟩ := d
  cases control with
  | outside =>
    obtain ⟨total, -, held⟩ := last
    exact guarded.seen total t held
  | native p =>
    obtain ⟨_, _, _, _, _, seen, _⟩ := last
    exact seen

end Bridge
end ReentrantMachine
