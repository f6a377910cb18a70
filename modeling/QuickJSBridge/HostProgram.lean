import Mathlib.Data.List.Basic

/- Programs of native code that sits between two foreign sides. A program issues
   primitives, which act on the shared state at once, and calls, which hand control
   to the other side until it answers. Nothing here fixes what they do. -/
namespace HostProgram

variable {σ P E A R S T : Type}

inductive Prog (P E A R : Type) where
  | ret (r : R)
  /-- A loop that has used up its fuel: the program is still running. -/
  | spin
  /-- The program dereferences a null string and dies. -/
  | crash
  | prim (c : P) (next : A → Prog P E A R)
  | enter (e : E) (next : A → Prog P E A R)

namespace Prog

def bind : Prog P E A R → (R → Prog P E A S) → Prog P E A S
  | .ret r, f => f r
  | .spin, _ => .spin
  | .crash, _ => .crash
  | .prim c next, f => .prim c fun a => (next a).bind f
  | .enter e next, f => .enter e fun a => (next a).bind f

def when (p : Prog P E A Unit) (condition : Bool) : Prog P E A Unit :=
  if condition then p else .ret ()

instance : Monad (Prog P E A) where
  pure := .ret
  bind := .bind

@[simp] theorem pure_eq (r : R) : (pure r : Prog P E A R) = .ret r := rfl
@[simp] theorem bind_eq (p : Prog P E A R) (f : R → Prog P E A S) : p >>= f = p.bind f := rfl
@[simp] theorem bind_ret (r : R) (f : R → Prog P E A S) : (Prog.ret r).bind f = f r := rfl
@[simp] theorem bind_spin (f : R → Prog P E A S) : (Prog.spin : Prog P E A R).bind f = .spin := rfl
@[simp] theorem bind_crash (f : R → Prog P E A S) :
    (Prog.crash : Prog P E A R).bind f = .crash := rfl
@[simp] theorem bind_prim (c : P) (next : A → Prog P E A R) (f : R → Prog P E A S) :
    (Prog.prim c next).bind f = .prim c fun a => (next a).bind f := rfl
@[simp] theorem bind_enter (e : E) (next : A → Prog P E A R) (f : R → Prog P E A S) :
    (Prog.enter e next).bind f = .enter e fun a => (next a).bind f := rfl

@[simp] theorem when_true (p : Prog P E A Unit) : p.when true = p := rfl
@[simp] theorem when_false (p : Prog P E A Unit) : p.when false = .ret () := rfl

theorem bind_assoc (p : Prog P E A R) (f : R → Prog P E A S) (g : S → Prog P E A T) :
    (p.bind f).bind g = p.bind fun r => (f r).bind g := by
  induction p with
  | ret r => rfl
  | spin => rfl
  | crash => rfl
  | prim c next ih => simp only [bind_prim, ih]
  | enter e next ih => simp only [bind_enter, ih]

def Within (prims : P → Prop) (calls : E → Prop) : Prog P E A R → Prop
  | .ret _ => True
  | .spin => True
  | .crash => True
  | .prim c next => prims c ∧ ∀ a, (next a).Within prims calls
  | .enter e next => calls e ∧ ∀ a, (next a).Within prims calls

theorem within_bind {prims : P → Prop} {calls : E → Prop} {p : Prog P E A R}
    {f : R → Prog P E A S} (first : p.Within prims calls)
    (rest : ∀ r, (f r).Within prims calls) : (p.bind f).Within prims calls := by
  induction p with
  | ret r => exact rest r
  | spin => trivial
  | crash => trivial
  | prim c next ih => exact ⟨first.1, fun a => ih a (first.2 a)⟩
  | enter e next ih => exact ⟨first.1, fun a => ih a (first.2 a)⟩

theorem within_mono {prims prims' : P → Prop} {calls calls' : E → Prop} {p : Prog P E A R}
    (within : p.Within prims calls) (widerPrims : ∀ c, prims c → prims' c)
    (widerCalls : ∀ e, calls e → calls' e) : p.Within prims' calls' := by
  induction p with
  | ret r => trivial
  | spin => trivial
  | crash => trivial
  | prim c next ih => exact ⟨widerPrims c within.1, fun a => ih a (within.2 a)⟩
  | enter e next ih => exact ⟨widerCalls e within.1, fun a => ih a (within.2 a)⟩

theorem within_all (p : Prog P E A R) : p.Within (fun _ => True) fun _ => True := by
  induction p with
  | ret r => trivial
  | spin => trivial
  | crash => trivial
  | prim c next ih => exact ⟨trivial, ih⟩
  | enter e next ih => exact ⟨trivial, ih⟩

end Prog

/-- One command of an execution, its answer and the state it left. -/
inductive Item (σ P E A : Type) where
  | prim (c : P) (a : A) (after : σ)
  | call (e : E) (a : A) (after : σ)

def Item.after : Item σ P E A → σ
  | .prim _ _ s => s
  | .call _ _ s => s

inductive Outcome (R : Type) where
  | returned (r : R)
  | crashed
  deriving DecidableEq

/-- The meaning of single commands. A primitive without a result is undefined
    behaviour: no execution passes it. -/
structure Meaning (σ P E A : Type) where
  exec : P → σ → Option (A × σ)
  reply : E → σ → A → σ → Prop

/-- Complete executions, with the commands issued on the way. -/
inductive Exec (m : Meaning σ P E A) : {R : Type} → Prog P E A R → σ → List (Item σ P E A) →
    Outcome R → σ → Prop where
  | ret {R : Type} (r : R) (s : σ) : Exec m (.ret r) s [] (.returned r) s
  | crash {R : Type} (s : σ) : Exec m (.crash : Prog P E A R) s [] .crashed s
  | prim {R : Type} {c : P} {next : A → Prog P E A R} {s s' t : σ} {a : A}
      {trace : List (Item σ P E A)} {out : Outcome R}
      (acts : m.exec c s = some (a, s')) (rest : Exec m (next a) s' trace out t) :
      Exec m (.prim c next) s (.prim c a s' :: trace) out t
  | enter {R : Type} {e : E} {next : A → Prog P E A R} {s s' t : σ} {a : A}
      {trace : List (Item σ P E A)} {out : Outcome R}
      (answers : m.reply e s a s') (rest : Exec m (next a) s' trace out t) :
      Exec m (.enter e next) s (.call e a s' :: trace) out t

section Inversion
variable {m : Meaning σ P E A} {s t : σ} {trace : List (Item σ P E A)}

theorem exec_ret {r : R} {out : Outcome R} (run : Exec m (.ret r) s trace out t) :
    trace = [] ∧ out = .returned r ∧ t = s := by
  cases run
  exact ⟨rfl, rfl, rfl⟩

theorem exec_spin {out : Outcome R} (run : Exec m (.spin : Prog P E A R) s trace out t) :
    False := by
  cases run

theorem exec_crash {out : Outcome R} (run : Exec m (.crash : Prog P E A R) s trace out t) :
    trace = [] ∧ out = .crashed ∧ t = s := by
  cases run
  exact ⟨rfl, rfl, rfl⟩

theorem exec_prim {c : P} {next : A → Prog P E A R} {out : Outcome R}
    (run : Exec m (.prim c next) s trace out t) :
    ∃ a s' rest, m.exec c s = some (a, s') ∧ Exec m (next a) s' rest out t ∧
      trace = .prim c a s' :: rest := by
  cases run with
  | prim acts rest => exact ⟨_, _, _, acts, rest, rfl⟩

theorem exec_enter {e : E} {next : A → Prog P E A R} {out : Outcome R}
    (run : Exec m (.enter e next) s trace out t) :
    ∃ a s' rest, m.reply e s a s' ∧ Exec m (next a) s' rest out t ∧
      trace = .call e a s' :: rest := by
  cases run with
  | enter answers rest => exact ⟨_, _, _, answers, rest, rfl⟩

theorem exec_bind {p : Prog P E A R} {f : R → Prog P E A S} {out : Outcome S}
    (run : Exec m (p.bind f) s trace out t) :
    (∃ r u before after, Exec m p s before (.returned r) u ∧ Exec m (f r) u after out t ∧
      trace = before ++ after) ∨
    (Exec m p s trace .crashed t ∧ out = .crashed) := by
  induction p generalizing s trace with
  | ret r => exact Or.inl ⟨r, s, [], trace, .ret r s, run, rfl⟩
  | spin => cases run
  | crash =>
    obtain ⟨rfl, rfl, rfl⟩ := exec_crash run
    exact Or.inr ⟨.crash _, rfl⟩
  | prim c next ih =>
    obtain ⟨a, s', rest, acts, tail, rfl⟩ := exec_prim run
    rcases ih a tail with ⟨r, u, before, after, first, second, rfl⟩ | ⟨first, rfl⟩
    · exact Or.inl ⟨r, u, _, after, .prim acts first, second, rfl⟩
    · exact Or.inr ⟨.prim acts first, rfl⟩
  | enter e next ih =>
    obtain ⟨a, s', rest, answers, tail, rfl⟩ := exec_enter run
    rcases ih a tail with ⟨r, u, before, after, first, second, rfl⟩ | ⟨first, rfl⟩
    · exact Or.inl ⟨r, u, _, after, .enter answers first, second, rfl⟩
    · exact Or.inr ⟨.enter answers first, rfl⟩

theorem exec_within {p : Prog P E A R} {out : Outcome R} {prims : P → Prop} {calls : E → Prop}
    (within : p.Within prims calls) (run : Exec m p s trace out t) :
    (∀ c a u, .prim c a u ∈ trace → prims c) ∧ ∀ e a u, .call e a u ∈ trace → calls e := by
  induction p generalizing s trace with
  | ret r =>
    obtain ⟨rfl, -, -⟩ := exec_ret run
    simp
  | spin => cases run
  | crash =>
    obtain ⟨rfl, -, -⟩ := exec_crash run
    simp
  | prim c next ih =>
    obtain ⟨a, s', rest, acts, tail, rfl⟩ := exec_prim run
    obtain ⟨acted, called⟩ := ih a (within.2 a) tail
    constructor
    · intro c' a' u issued
      rcases List.mem_cons.1 issued with same | later
      · cases same
        exact within.1
      · exact acted c' a' u later
    · intro e a' u issued
      rcases List.mem_cons.1 issued with same | later
      · cases same
      · exact called e a' u later
  | enter e next ih =>
    obtain ⟨a, s', rest, answers, tail, rfl⟩ := exec_enter run
    obtain ⟨acted, called⟩ := ih a (within.2 a) tail
    constructor
    · intro c a' u issued
      rcases List.mem_cons.1 issued with same | later
      · cases same
      · exact acted c a' u later
    · intro e' a' u issued
      rcases List.mem_cons.1 issued with same | later
      · cases same
        exact within.1
      · exact called e' a' u later

theorem exec_append {p : Prog P E A R} {f : R → Prog P E A S} {r : R} {u : σ} {out : Outcome S}
    {before after : List (Item σ P E A)} (first : Exec m p s before (.returned r) u)
    (second : Exec m (f r) u after out t) : Exec m (p.bind f) s (before ++ after) out t := by
  generalize done : Outcome.returned r = stop at first
  induction first with
  | ret r' s =>
    cases done
    exact second
  | crash s => cases done
  | prim acts rest ih => exact .prim acts (ih second done)
  | enter answers rest ih => exact .enter answers (ih second done)

end Inversion

/-- A program that is under way: entered in `s`, it has issued some commands and goes on as `q`. -/
inductive Unfinished (m : Meaning σ P E A) (p : Prog P E A R) (s : σ) :
    List (Item σ P E A) → Prog P E A R → σ → Prop where
  | start : Unfinished m p s [] p s
  | prim {h : List (Item σ P E A)} {c : P} {next : A → Prog P E A R} {t t' : σ} {a : A}
      (before : Unfinished m p s h (.prim c next) t) (acts : m.exec c t = some (a, t')) :
      Unfinished m p s (h ++ [.prim c a t']) (next a) t'
  | enter {h : List (Item σ P E A)} {e : E} {next : A → Prog P E A R} {t t' : σ} {a : A}
      (before : Unfinished m p s h (.enter e next) t) (answers : m.reply e t a t') :
      Unfinished m p s (h ++ [.call e a t']) (next a) t'

section Unfinished
variable {m : Meaning σ P E A} {p q : Prog P E A R} {s t : σ} {h : List (Item σ P E A)}

theorem unfinished_within {prims : P → Prop} {calls : E → Prop} (within : p.Within prims calls)
    (run : Unfinished m p s h q t) : q.Within prims calls := by
  induction run with
  | start => exact within
  | prim before acts ih => exact ih.2 _
  | enter before answers ih => exact ih.2 _

theorem unfinished_prim {c : P} {next : A → Prog P E A R} (run : Unfinished m (.prim c next) s h q t) :
    (h = [] ∧ q = .prim c next) ∨
    ∃ a s' rest, h = .prim c a s' :: rest ∧ Unfinished m (next a) s' rest q t := by
  induction run with
  | start => exact Or.inl ⟨rfl, rfl⟩
  | prim before acts ih =>
    rcases ih with ⟨rfl, same⟩ | ⟨a, s', rest, rfl, since⟩
    · cases same
      exact Or.inr ⟨_, _, [], rfl, .start⟩
    · exact Or.inr ⟨a, s', _, rfl, .prim since acts⟩
  | enter before answers ih =>
    rcases ih with ⟨rfl, same⟩ | ⟨a, s', rest, rfl, since⟩
    · cases same
    · exact Or.inr ⟨a, s', _, rfl, .enter since answers⟩

theorem unfinished_enter {e : E} {next : A → Prog P E A R} (run : Unfinished m (.enter e next) s h q t) :
    (h = [] ∧ q = .enter e next) ∨
    ∃ a s' rest, h = .call e a s' :: rest ∧ Unfinished m (next a) s' rest q t := by
  induction run with
  | start => exact Or.inl ⟨rfl, rfl⟩
  | prim before acts ih =>
    rcases ih with ⟨rfl, same⟩ | ⟨a, s', rest, rfl, since⟩
    · cases same
    · exact Or.inr ⟨a, s', _, rfl, .prim since acts⟩
  | enter before answers ih =>
    rcases ih with ⟨rfl, same⟩ | ⟨a, s', rest, rfl, since⟩
    · cases same
      exact Or.inr ⟨_, _, [], rfl, .start⟩
    · exact Or.inr ⟨a, s', _, rfl, .enter since answers⟩

end Unfinished

end HostProgram
