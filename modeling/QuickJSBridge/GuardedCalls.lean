import QuickJSBridge.ReentrantMachine

/- Which calls a program can make and what it can end in, given what its primitives can answer.
   A program that tests an answer before it makes a call is told from one that does not. -/
namespace HostProgram

variable {σ P E A R S : Type}

namespace Prog

/-- Every call the program makes is guarded, and it ends in `Q`, if its primitives answer as
    they can. -/
def Guards (answers : P → A → Prop) (calls : E → Prop) : Prog P E A R → (R → Prop) → Prop
  | .ret r, Q => Q r
  | .spin, _ => True
  | .crash, _ => True
  | .prim c next, Q => ∀ a, answers c a → (next a).Guards answers calls Q
  | .enter e next, Q => calls e ∧ ∀ a, (next a).Guards answers calls Q

variable {answers : P → A → Prop} {calls : E → Prop} {Q : R → Prop}

theorem guards_bind {p : Prog P E A S} {f : S → Prog P E A R} {M : S → Prop}
    (first : p.Guards answers calls M) (rest : ∀ s, M s → (f s).Guards answers calls Q) :
    (p.bind f).Guards answers calls Q := by
  induction p with
  | ret s => exact rest s first
  | spin => trivial
  | crash => trivial
  | prim c next ih => exact fun a may => ih a (first a may)
  | enter e next ih => exact ⟨first.1, fun a => ih a (first.2 a)⟩

theorem guards_within {p : Prog P E A R} {prims : P → Prop} {free : E → Prop}
    (within : p.Within prims free) (harmless : ∀ e, free e → calls e) :
    p.Guards answers calls fun _ => True := by
  induction p with
  | ret r => trivial
  | spin => trivial
  | crash => trivial
  | prim c next ih => exact fun a _ => ih a (within.2 a)
  | enter e next ih => exact ⟨harmless e within.1, fun a => ih a (within.2 a)⟩

end Prog
end HostProgram

namespace ReentrantMachine
open HostProgram

variable {σ P E A Op Ev : Type}

namespace Bridge
variable (M : Bridge σ P E A Op Ev) (answers : P → A → Prop) (calls : E → Prop)

abbrev GuardedProgram (p : Native P E A) : Prop := p.Guards answers calls fun _ => True

def GuardedStack : List (Frame P E A Op) → Prop
  | [] => True
  | .pending _ next :: rest => (∀ a, GuardedProgram answers calls (next a)) ∧ GuardedStack rest
  | .caller _ :: rest => GuardedStack rest

def GuardedConfig : Config σ P E A Op → Prop
  | ⟨_, .outside, stack⟩ => GuardedStack answers calls stack
  | ⟨_, .native p, stack⟩ => GuardedProgram answers calls p ∧ GuardedStack answers calls stack

variable {M answers calls}

theorem step_guarded {l : Label A Op Ev} {c c' : Config σ P E A Op}
    (possible : ∀ q s a s', M.exec q s = some (a, s') → answers q a)
    (starts : ∀ o ctx s s' p, M.start o ctx s = some (s', p) → GuardedProgram answers calls p)
    (guarded : GuardedConfig answers calls c) (taken : M.step l c = some c') :
    GuardedConfig answers calls c' := by
  cases step_taken taken with
  | event acts => exact guarded
  | call called start => exact ⟨starts _ _ _ _ _ start, guarded⟩
  | answer back => exact ⟨guarded.1 _, guarded.2⟩
  | prim acts => exact ⟨guarded.1 _ (possible _ _ _ _ acts), guarded.2⟩
  | depart leaves => exact ⟨guarded.1.2, guarded.2⟩
  | finish done => exact guarded.2

theorem moment_depart {l : Label A Op Ev} {c : Config σ P E A Op} {m : Moment σ P E A Op Ev} {e : E}
    (named : moment l c = some m) (leaves : m.action = .depart e) :
    ∃ next, c.control = .native (.enter e next) := by
  unfold moment at named
  split at named <;> cases named <;> cases leaves
  exact ⟨_, rfl⟩

theorem departure_guarded {c : Config σ P E A Op} {e : E} {next : A → Native P E A}
    (guarded : GuardedConfig answers calls c) (leaves : c.control = .native (.enter e next)) : calls e := by
  obtain ⟨s, control, stack⟩ := c
  cases leaves
  exact guarded.1.1

end Bridge
end ReentrantMachine
