import QuickJSBridge.OwnedResources

/- Which commands the programs on a stack can still issue. What a program was started as
   bounds what it does at every later moment, however deep other programs nest above it. -/
namespace ReentrantMachine
open HostProgram

variable {σ P E A Op Ev : Type}

namespace Bridge
variable (M : Bridge σ P E A Op Ev) (prims : Op → P → Prop) (calls : Op → E → Prop)

abbrev Bounded (o : Op) (p : Native P E A) : Prop := p.Within (prims o) (calls o)

def BoundedStack : List (Frame P E A Op) → Prop
  | [] => True
  | .pending _ next :: .caller o :: rest => (∀ a, Bounded prims calls o (next a)) ∧ BoundedStack rest
  | _ => False

def BoundedConfig : Config σ P E A Op → Prop
  | ⟨_, .outside, stack⟩ => BoundedStack prims calls stack
  | ⟨_, .native p, .caller o :: rest⟩ => Bounded prims calls o p ∧ BoundedStack prims calls rest
  | ⟨_, .native _, _⟩ => False

variable {M prims calls}

theorem step_bounded {l : Label A Op Ev} {c c' : Config σ P E A Op}
    (bounded : BoundedConfig prims calls c)
    (starts : ∀ o ctx s s' p, M.start o ctx s = some (s', p) → c.state = s →
      Bounded prims calls o p)
    (taken : M.step l c = some c') : BoundedConfig prims calls c' := by
  cases step_taken taken with
  | event acts => exact bounded
  | call called start => exact ⟨starts _ _ _ _ _ start rfl, bounded⟩
  | @answer a e next s s' stack back =>
    cases stack with
    | nil => exact bounded.elim
    | cons frame rest =>
      cases frame with
      | pending e' next' => exact bounded.elim
      | caller o => exact ⟨bounded.1 a, bounded.2⟩
  | @prim q next a s s' stack acts =>
    cases stack with
    | nil => exact bounded.elim
    | cons frame rest =>
      cases frame with
      | pending e next => exact bounded.elim
      | caller o => exact ⟨bounded.1.2 a, bounded.2⟩
  | @depart e next s s' stack leaves =>
    cases stack with
    | nil => exact bounded.elim
    | cons frame rest =>
      cases frame with
      | pending e next => exact bounded.elim
      | caller o => exact ⟨bounded.1.2, bounded.2⟩
  | finish done => exact bounded.2

theorem prim_permitted {c : Config σ P E A Op} {q : P} {next : A → Native P E A}
    (bounded : BoundedConfig prims calls c) (running : c.control = .native (.prim q next)) :
    ∃ o rest, c.stack = .caller o :: rest ∧ prims o q := by
  obtain ⟨s, control, stack⟩ := c
  cases running
  match stack, bounded with
  | [], bounded => exact bounded.elim
  | .pending _ _ :: _, bounded => exact bounded.elim
  | .caller o :: rest, bounded => exact ⟨o, rest, rfl, bounded.1.1⟩

theorem call_permitted {c : Config σ P E A Op} {e : E} {next : A → Native P E A}
    (bounded : BoundedConfig prims calls c) (running : c.control = .native (.enter e next)) :
    ∃ o rest, c.stack = .caller o :: rest ∧ calls o e := by
  obtain ⟨s, control, stack⟩ := c
  cases running
  match stack, bounded with
  | [], bounded => exact bounded.elim
  | .pending _ _ :: _, bounded => exact bounded.elim
  | .caller o :: rest, bounded => exact ⟨o, rest, rfl, bounded.1.1⟩

end Bridge
end ReentrantMachine
