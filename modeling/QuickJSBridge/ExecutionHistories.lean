import QuickJSBridge.NestedRuns

/- Executions against what happened before them. A specification relates the history, every
   command issued so far with its answer, to the state, before a program and after it. -/
namespace HostProgram

variable {σ P E A R S : Type}

abbrev History (σ P E A : Type) := List (Item σ P E A)

/-- From a history and a state in `K`, a program that returns `r` ends in `Q r`. -/
def Leads (m : Meaning σ P E A) (K : History σ P E A → σ → Prop) (p : Prog P E A R)
    (Q : R → History σ P E A → σ → Prop) : Prop :=
  ∀ h s trace r t, K h s → Exec m p s trace (.returned r) t → Q r (h ++ trace) t

section Rules
variable {m : Meaning σ P E A} {K K' : History σ P E A → σ → Prop}
  {Q Q' : R → History σ P E A → σ → Prop}

theorem leads_ret {r : R} (now : ∀ h s, K h s → Q r h s) : Leads m K (.ret r) Q := by
  intro h s trace r' t held run
  obtain ⟨rfl, same, rfl⟩ := exec_ret run
  cases same
  rw [List.append_nil]
  exact now h t held

theorem leads_spin : Leads m K (.spin : Prog P E A R) Q := by
  intro h s trace r t held run
  exact (exec_spin run).elim

theorem leads_crash : Leads m K (.crash : Prog P E A R) Q := by
  intro h s trace r t held run
  obtain ⟨-, dead, -⟩ := exec_crash run
  cases dead

theorem leads_prim {c : P} {next : A → Prog P E A R} {M : A → History σ P E A → σ → Prop}
    (acts : ∀ h s a s', K h s → m.exec c s = some (a, s') → M a (h ++ [.prim c a s']) s')
    (rest : ∀ a, Leads m (M a) (next a) Q) : Leads m K (.prim c next) Q := by
  intro h s trace r t held run
  obtain ⟨a, s', tail, done, after, rfl⟩ := exec_prim run
  have last := rest a _ s' tail r t (acts h s a s' held done) after
  rwa [List.append_assoc] at last

theorem leads_enter {e : E} {next : A → Prog P E A R} {M : A → History σ P E A → σ → Prop}
    (answers : ∀ h s a s', K h s → m.reply e s a s' → M a (h ++ [.call e a s']) s')
    (rest : ∀ a, Leads m (M a) (next a) Q) : Leads m K (.enter e next) Q := by
  intro h s trace r t held run
  obtain ⟨a, s', tail, done, after, rfl⟩ := exec_enter run
  have last := rest a _ s' tail r t (answers h s a s' held done) after
  rwa [List.append_assoc] at last

theorem leads_bind {p : Prog P E A S} {f : S → Prog P E A R} {M : S → History σ P E A → σ → Prop}
    (first : Leads m K p M) (rest : ∀ r, Leads m (M r) (f r) Q) : Leads m K (p.bind f) Q := by
  intro h s trace r t held run
  rcases exec_bind run with ⟨r', u, before, after, one, two, rfl⟩ | ⟨-, dead⟩
  · have last := rest r' _ u after r t (first h s before r' u held one) two
    rwa [List.append_assoc] at last
  · cases dead

theorem leads_mono {p : Prog P E A R} (leads : Leads m K' p Q')
    (stronger : ∀ h s, K h s → K' h s) (weaker : ∀ r h s, Q' r h s → Q r h s) :
    Leads m K p Q := by
  intro h s trace r t held run
  exact weaker r _ t (leads h s trace r t (stronger h s held) run)

theorem leads_within {p : Prog P E A R} {prims : P → Prop} {calls : E → Prop}
    (within : p.Within prims calls)
    (acts : ∀ c h s a s', prims c → K h s → m.exec c s = some (a, s') → K (h ++ [.prim c a s']) s')
    (answers : ∀ e h s a s', calls e → K h s → m.reply e s a s' → K (h ++ [.call e a s']) s') :
    Leads m K p fun _ => K := by
  induction p with
  | ret r => exact leads_ret fun _ _ held => held
  | spin => exact leads_spin
  | crash => exact leads_crash
  | prim c next ih =>
    apply leads_prim
    · exact fun h s a s' held done => acts c h s a s' within.1 held done
    · exact fun a => ih a (within.2 a)
  | enter e next ih =>
    apply leads_enter
    · exact fun h s a s' held done => answers e h s a s' within.1 held done
    · exact fun a => ih a (within.2 a)

theorem leads_exec {p : Prog P E A R} {s t : σ} {trace : History σ P E A} {r : R}
    (leads : Leads m K p Q) (start : K [] s) (run : Exec m p s trace (.returned r) t) :
    Q r trace t :=
  leads [] s trace r t start run

end Rules

section Ends
variable {m : Meaning σ P E A} {Q : History σ P E A → Outcome R → Prop}

def Ends (m : Meaning σ P E A) (p : Prog P E A R) (Q : History σ P E A → Outcome R → Prop) : Prop :=
  ∀ s h out t, Exec m p s h out t → Q h out

theorem ends_ret {r : R} (now : Q [] (.returned r)) : Ends m (.ret r) Q := by
  intro s h out t run
  obtain ⟨rfl, rfl, -⟩ := exec_ret run
  exact now

theorem ends_crash (now : Q [] .crashed) : Ends m .crash Q := by
  intro s h out t run
  obtain ⟨rfl, rfl, -⟩ := exec_crash run
  exact now

theorem ends_prim {c : P} {next : A → Prog P E A R}
    (rest : ∀ s a s', m.exec c s = some (a, s') →
      Ends m (next a) fun later => Q (.prim c a s' :: later)) : Ends m (.prim c next) Q := by
  intro s h out t run
  obtain ⟨a, s', later, acts, tail, rfl⟩ := exec_prim run
  exact rest s a s' acts s' later out t tail

theorem ends_enter {e : E} {next : A → Prog P E A R}
    (rest : ∀ s a s', m.reply e s a s' →
      Ends m (next a) fun later => Q (.call e a s' :: later)) : Ends m (.enter e next) Q := by
  intro s h out t run
  obtain ⟨a, s', later, answers, tail, rfl⟩ := exec_enter run
  exact rest s a s' answers s' later out t tail

theorem ends_bind {p : Prog P E A S} {f : S → Prog P E A R}
    {M : History σ P E A → Outcome S → Prop} (first : Ends m p M)
    (dead : ∀ h, M h .crashed → Q h .crashed)
    (rest : ∀ r h, M h (.returned r) → Ends m (f r) fun later => Q (h ++ later)) :
    Ends m (p.bind f) Q := by
  intro s h out t run
  rcases exec_bind run with ⟨r, u, before, after, one, two, rfl⟩ | ⟨one, rfl⟩
  · exact rest r before (first s before _ u one) u after out t two
  · exact dead h (first s h _ t one)

end Ends

section Abstraction
variable {τ : Type} {m : Meaning σ P E A} {m' : Meaning τ P E A}

def Item.map (f : σ → τ) : Item σ P E A → Item τ P E A
  | .prim c a s => .prim c a (f s)
  | .call e a s => .call e a (f s)

theorem exec_map_within (f : σ → τ) {prims : P → Prop} {calls : E → Prop} {p : Prog P E A R}
    (within : p.Within prims calls)
    (acts : ∀ c s a s', prims c → m.exec c s = some (a, s') → m'.exec c (f s) = some (a, f s'))
    (answers : ∀ e s a s', calls e → m.reply e s a s' → m'.reply e (f s) a (f s'))
    {s t : σ} {h : History σ P E A} {out : Outcome R} (run : Exec m p s h out t) :
    Exec m' p (f s) (h.map (Item.map f)) out (f t) := by
  induction run with
  | ret r s => exact .ret r (f s)
  | crash s => exact .crash (f s)
  | prim done rest ih => exact .prim (acts _ _ _ _ within.1 done) (ih (within.2 _))
  | enter answered rest ih => exact .enter (answers _ _ _ _ within.1 answered) (ih (within.2 _))

theorem exec_map (f : σ → τ)
    (acts : ∀ c s a s', m.exec c s = some (a, s') → m'.exec c (f s) = some (a, f s'))
    (answers : ∀ e s a s', m.reply e s a s' → m'.reply e (f s) a (f s')) {p : Prog P E A R}
    {s t : σ} {h : History σ P E A} {out : Outcome R} (run : Exec m p s h out t) :
    Exec m' p (f s) (h.map (Item.map f)) out (f t) :=
  exec_map_within f p.within_all (fun c s a s' _ => acts c s a s') (fun e s a s' _ => answers e s a s') run

end Abstraction

section Possible
variable {m : Meaning σ P E A} {Q : R → History σ P E A → σ → Prop} {h : History σ P E A}
  {s s' : σ} {a : A}

/-- After a history, some execution of the program returns, in `Q`. -/
def Can (m : Meaning σ P E A) (p : Prog P E A R) (h : History σ P E A) (s : σ)
    (Q : R → History σ P E A → σ → Prop) : Prop :=
  ∃ r trace t, Exec m p s trace (.returned r) t ∧ Q r (h ++ trace) t

theorem can_ret {r : R} (now : Q r h s) : Can m (.ret r) h s Q :=
  ⟨r, [], s, .ret r s, by rwa [List.append_nil]⟩

theorem can_prim {c : P} {next : A → Prog P E A R} (acts : m.exec c s = some (a, s'))
    (rest : Can m (next a) (h ++ [.prim c a s']) s' Q) : Can m (.prim c next) h s Q := by
  obtain ⟨r, trace, t, run, holds⟩ := rest
  rw [List.append_assoc] at holds
  exact ⟨r, _, t, .prim acts run, holds⟩

theorem can_enter {e : E} {next : A → Prog P E A R} (answers : m.reply e s a s')
    (rest : Can m (next a) (h ++ [.call e a s']) s' Q) : Can m (.enter e next) h s Q := by
  obtain ⟨r, trace, t, run, holds⟩ := rest
  rw [List.append_assoc] at holds
  exact ⟨r, _, t, .enter answers run, holds⟩

/-- After a history, some execution of the program dies, in `Q`. -/
def CanDie (m : Meaning σ P E A) (p : Prog P E A R) (h : History σ P E A) (s : σ)
    (Q : History σ P E A → σ → Prop) : Prop :=
  ∃ trace t, Exec m p s trace .crashed t ∧ Q (h ++ trace) t

theorem canDie_crash {Q : History σ P E A → σ → Prop} (now : Q h s) :
    CanDie m (.crash : Prog P E A R) h s Q :=
  ⟨[], s, .crash s, by rwa [List.append_nil]⟩

theorem canDie_prim {c : P} {next : A → Prog P E A R} {Q : History σ P E A → σ → Prop}
    (acts : m.exec c s = some (a, s')) (rest : CanDie m (next a) (h ++ [.prim c a s']) s' Q) :
    CanDie m (.prim c next) h s Q := by
  obtain ⟨trace, t, run, holds⟩ := rest
  rw [List.append_assoc] at holds
  exact ⟨_, t, .prim acts run, holds⟩

theorem canDie_enter {e : E} {next : A → Prog P E A R} {Q : History σ P E A → σ → Prop}
    (answers : m.reply e s a s') (rest : CanDie m (next a) (h ++ [.call e a s']) s' Q) :
    CanDie m (.enter e next) h s Q := by
  obtain ⟨trace, t, run, holds⟩ := rest
  rw [List.append_assoc] at holds
  exact ⟨_, t, .enter answers run, holds⟩

end Possible

section Results
variable {m : Meaning σ P E A} {s t : σ} {r : R}

def Gives (m : Meaning σ P E A) (p : Prog P E A R) (s : σ) (r : R) (t : σ) : Prop :=
  ∃ h, Exec m p s h (.returned r) t

@[simp] theorem gives_ret {q : R} : Gives m (.ret q) s r t ↔ r = q ∧ t = s := by
  constructor
  · rintro ⟨h, run⟩
    obtain ⟨-, same, rfl⟩ := exec_ret run
    cases same
    exact ⟨rfl, rfl⟩
  · rintro ⟨rfl, rfl⟩
    exact ⟨[], .ret r t⟩

theorem gives_prim {c : P} {next : A → Prog P E A R} : Gives m (.prim c next) s r t ↔
    ∃ a u, m.exec c s = some (a, u) ∧ Gives m (next a) u r t := by
  constructor
  · rintro ⟨h, run⟩
    obtain ⟨a, u, rest, acts, tail, -⟩ := exec_prim run
    exact ⟨a, u, acts, rest, tail⟩
  · rintro ⟨a, u, acts, rest, tail⟩
    exact ⟨_, .prim acts tail⟩

theorem gives_enter {e : E} {next : A → Prog P E A R} : Gives m (.enter e next) s r t ↔
    ∃ a u, m.reply e s a u ∧ Gives m (next a) u r t := by
  constructor
  · rintro ⟨h, run⟩
    obtain ⟨a, u, rest, answers, tail, -⟩ := exec_enter run
    exact ⟨a, u, answers, rest, tail⟩
  · rintro ⟨a, u, answers, rest, tail⟩
    exact ⟨_, .enter answers tail⟩

theorem gives_bind {p : Prog P E A S} {f : S → Prog P E A R} : Gives m (p.bind f) s r t ↔
    ∃ q u, Gives m p s q u ∧ Gives m (f q) u r t := by
  constructor
  · rintro ⟨h, run⟩
    rcases exec_bind run with ⟨q, u, before, after, first, second, -⟩ | ⟨-, dead⟩
    · exact ⟨q, u, ⟨before, first⟩, after, second⟩
    · cases dead
  · rintro ⟨q, u, ⟨before, first⟩, after, second⟩
    exact ⟨_, exec_append first second⟩

theorem gives_prim_of {c : P} {next : A → Prog P E A R} {a : A} {u : σ} (acts : m.exec c s = some (a, u)) :
    Gives m (.prim c next) s r t ↔ Gives m (next a) u r t := by
  rw [gives_prim]
  constructor
  · rintro ⟨b, v, also, rest⟩
    cases acts.symm.trans also
    exact rest
  · exact fun rest => ⟨a, u, acts, rest⟩

end Results

section Phases

def Happens (m : Meaning σ P E A) (s : σ) : Item σ P E A → Prop
  | .prim c a s' => m.exec c s = some (a, s')
  | .call e a s' => m.reply e s a s'

/-- Histories from a state on in which every item moves the phase as it may. -/
inductive Path {Φ : Type} (m : Meaning σ P E A) (moves : Φ → Item σ P E A → Φ → Prop) (first : Φ)
    (start : σ) : History σ P E A → Φ → σ → Prop where
  | nil : Path m moves first start [] first start
  | snoc {h : History σ P E A} {φ φ' : Φ} {s : σ} {item : Item σ P E A}
      (path : Path m moves first start h φ s) (happens : Happens m s item)
      (may : moves φ item φ') : Path m moves first start (h ++ [item]) φ' item.after

end Phases

section Phases
variable {Φ : Type} {m : Meaning σ P E A} {moves : Φ → Item σ P E A → Φ → Prop}
  {first φ ψ : Φ} {start s t : σ} {h : History σ P E A}

theorem path_append {later : History σ P E A} (path : Path m moves first start h φ s)
    (further : Path m moves φ s later ψ t) : Path m moves first start (h ++ later) ψ t := by
  induction further with
  | nil => rwa [List.append_nil]
  | snoc further happens may ih =>
    rw [← List.append_assoc]
    exact .snoc ih happens may

theorem path_prefix {later : History σ P E A} (path : Path m moves first start (h ++ later) ψ t) :
    ∃ φ s, Path m moves first start h φ s := by
  generalize whole : h ++ later = both at path
  induction path generalizing later with
  | nil =>
    obtain ⟨rfl, rfl⟩ := List.append_eq_nil_iff.1 whole
    exact ⟨_, _, .nil⟩
  | @snoc both φ φ' s item path happens may ih =>
    rcases List.eq_nil_or_concat later with rfl | ⟨early, last, rfl⟩
    · rw [List.append_nil] at whole
      subst whole
      exact ⟨_, _, .snoc path happens may⟩
    · rw [List.concat_eq_append, ← List.append_assoc] at whole
      exact ih (List.append_inj_left' whole rfl)

theorem path_invariant (J : σ → Prop) (kept : ∀ s item, Happens m s item → J s → J item.after)
    (path : Path m moves first start h φ s) (now : J start) : J s := by
  induction path with
  | nil => exact now
  | snoc path happens may ih => exact kept _ _ happens ih

/-- The items are those of an execution, whatever its program. -/
abbrev Chain (m : Meaning σ P E A) (s : σ) (h : History σ P E A) (t : σ) : Prop :=
  Path m (fun _ _ _ => True) () s h () t

theorem chain_cons {item : Item σ P E A} (happens : Happens m s item)
    (chain : Chain m item.after h t) : Chain m s (item :: h) t :=
  path_append (.snoc .nil happens trivial) chain

theorem exec_chain {p : Prog P E A R} {out : Outcome R} (run : Exec m p s h out t) :
    Chain m s h t := by
  induction run with
  | ret r s => exact .nil
  | crash s => exact .nil
  | prim acts rest ih => exact chain_cons acts ih
  | enter answers rest ih => exact chain_cons answers ih

end Phases

section Marks
variable {prims : P → Bool} {calls : E → Bool} {m : Meaning σ P E A}

/-- The first marked command the program can come to is issued by a program that is `good`. -/
def FirstAt (prims : P → Bool) (calls : E → Bool) (good : Prog P E A R → Prop) :
    Prog P E A R → Prop
  | .prim c next => if prims c then good (.prim c next) else ∀ a, FirstAt prims calls good (next a)
  | .enter e next =>
    if calls e then good (.enter e next) else ∀ a, FirstAt prims calls good (next a)
  | _ => True

def Item.marked (prims : P → Bool) (calls : E → Bool) : Item σ P E A → Bool
  | .prim c _ _ => prims c
  | .call e _ _ => calls e

theorem firstAt_prim {good : Prog P E A R → Prop} {c : P} {next : A → Prog P E A R}
    (marked : prims c = true) (here : good (.prim c next)) :
    FirstAt prims calls good (.prim c next) := by
  simp only [FirstAt, marked, if_true]
  exact here

theorem firstAt_enter {good : Prog P E A R → Prop} {e : E} {next : A → Prog P E A R}
    (marked : calls e = true) (here : good (.enter e next)) :
    FirstAt prims calls good (.enter e next) := by
  simp only [FirstAt, marked, if_true]
  exact here

theorem firstAt_unmarked {good : Prog P E A R → Prop} {p : Prog P E A R}
    (within : p.Within (fun c => prims c = false) fun e => calls e = false) :
    FirstAt prims calls good p := by
  induction p with
  | ret r => trivial
  | spin => trivial
  | crash => trivial
  | prim c next ih =>
    simp only [FirstAt, within.1, Bool.false_eq_true, if_false]
    exact fun a => ih a (within.2 a)
  | enter e next ih =>
    simp only [FirstAt, within.1, Bool.false_eq_true, if_false]
    exact fun a => ih a (within.2 a)

theorem firstAt_bind {good : Prog P E A R → Prop} {good' : Prog P E A S → Prop}
    {p : Prog P E A R} {f : R → Prog P E A S} (first : FirstAt prims calls good p)
    (through : ∀ q, good q → good' (q.bind f)) (rest : ∀ r, FirstAt prims calls good' (f r)) :
    FirstAt prims calls good' (p.bind f) := by
  induction p with
  | ret r => exact rest r
  | spin => trivial
  | crash => trivial
  | prim c next ih =>
    simp only [FirstAt] at first
    split at first
    next marked => exact firstAt_prim marked (through _ first)
    next unmarked =>
      simp only [Prog.bind_prim, FirstAt, unmarked, Bool.false_eq_true, if_false]
      exact fun a => ih a (first a)
  | enter e next ih =>
    simp only [FirstAt] at first
    split at first
    next marked => exact firstAt_enter marked (through _ first)
    next unmarked =>
      simp only [Prog.bind_enter, FirstAt, unmarked, Bool.false_eq_true, if_false]
      exact fun a => ih a (first a)

theorem firstAt_after {good : Prog P E A S → Prop} {p : Prog P E A R} {f : R → Prog P E A S}
    (within : p.Within (fun c => prims c = false) fun e => calls e = false)
    (rest : ∀ r, FirstAt prims calls good (f r)) : FirstAt prims calls good (p.bind f) :=
  have quiet : FirstAt prims calls (fun _ => False) p := firstAt_unmarked within
  firstAt_bind quiet (fun _ none => none.elim) rest

theorem exec_firstAt {good : Prog P E A R → Prop} {p : Prog P E A R} {s t : σ}
    {trace : History σ P E A} {out : Outcome R} (first : FirstAt prims calls good p)
    (run : Exec m p s trace out t) :
    trace.any (Item.marked prims calls) = false ∨
    ∃ q u before item rest, good q ∧ trace = before ++ item :: rest ∧ Chain m s before u ∧
      before.any (Item.marked prims calls) = false ∧ item.marked prims calls = true ∧
      Exec m q u (item :: rest) out t := by
  induction p generalizing s trace with
  | ret r =>
    obtain ⟨rfl, -, -⟩ := exec_ret run
    exact Or.inl rfl
  | spin => cases run
  | crash =>
    obtain ⟨rfl, -, -⟩ := exec_crash run
    exact Or.inl rfl
  | prim c next ih =>
    simp only [FirstAt] at first
    split at first
    next marked =>
      obtain ⟨a, s', rest, acts, tail, rfl⟩ := exec_prim run
      exact Or.inr ⟨_, s, [], _, rest, first, rfl, .nil, rfl, marked, run⟩
    next unmarked =>
      obtain ⟨a, s', rest, acts, tail, rfl⟩ := exec_prim run
      have here : Item.marked prims calls (.prim c a s') = false := Bool.eq_false_iff.2 unmarked
      rcases ih a (first a) tail with
        none | ⟨q, u, before, item, rest, holds, rfl, chain, none, marked, run⟩
      · exact Or.inl (by rw [List.any_cons, here, none]; rfl)
      · refine Or.inr ⟨q, u, _ :: before, item, rest, holds, rfl, chain_cons acts chain, ?_, marked, run⟩
        rw [List.any_cons, here, none]
        rfl
  | enter e next ih =>
    simp only [FirstAt] at first
    split at first
    next marked =>
      obtain ⟨a, s', rest, answers, tail, rfl⟩ := exec_enter run
      exact Or.inr ⟨_, s, [], _, rest, first, rfl, .nil, rfl, marked, run⟩
    next unmarked =>
      obtain ⟨a, s', rest, answers, tail, rfl⟩ := exec_enter run
      have here : Item.marked prims calls (.call e a s') = false := Bool.eq_false_iff.2 unmarked
      rcases ih a (first a) tail with
        none | ⟨q, u, before, item, rest, holds, rfl, chain, none, marked, run⟩
      · exact Or.inl (by rw [List.any_cons, here, none]; rfl)
      · refine Or.inr ⟨q, u, _ :: before, item, rest, holds, rfl, chain_cons answers chain, ?_, marked, run⟩
        rw [List.any_cons, here, none]
        rfl

theorem unfinished_firstAt {good : Prog P E A R → Prop} {p q : Prog P E A R} {s t : σ}
    {h : History σ P E A} (first : FirstAt prims calls good p) (run : Unfinished m p s h q t) :
    (h.any (Item.marked prims calls) = false ∧ FirstAt prims calls good q) ∨
    ∃ r u before item rest, good r ∧ h = before ++ item :: rest ∧
      before.any (Item.marked prims calls) = false ∧ item.marked prims calls = true ∧
      Unfinished m r u (item :: rest) q t := by
  induction run with
  | start => exact Or.inl ⟨rfl, first⟩
  | @prim h c next t t' a run acts ih =>
    rcases ih with ⟨none, first⟩ | ⟨r, u, before, item, rest, holds, rfl, none, marked, since⟩
    · simp only [FirstAt] at first
      split at first
      next here =>
        exact Or.inr ⟨_, t, h, _, [], first, rfl, none, here, .prim .start acts⟩
      next other =>
        refine Or.inl ⟨?_, first a⟩
        rw [List.any_append, none]
        simpa [Item.marked] using other
    · have longer : Unfinished m r u (item :: (rest ++ [.prim c a t'])) (next a) t' := .prim since acts
      exact Or.inr ⟨r, u, before, item, _, holds, List.append_assoc _ _ _, none, marked, longer⟩
  | @enter h e next t t' a run answers ih =>
    rcases ih with ⟨none, first⟩ | ⟨r, u, before, item, rest, holds, rfl, none, marked, since⟩
    · simp only [FirstAt] at first
      split at first
      next here =>
        exact Or.inr ⟨_, t, h, _, [], first, rfl, none, here, .enter .start answers⟩
      next other =>
        refine Or.inl ⟨?_, first a⟩
        rw [List.any_append, none]
        simpa [Item.marked] using other
    · have longer : Unfinished m r u (item :: (rest ++ [.call e a t'])) (next a) t' :=
        .enter since answers
      exact Or.inr ⟨r, u, before, item, _, holds, List.append_assoc _ _ _, none, marked, longer⟩

end Marks

section Remains
variable {α : Type}

def leftBy (counts : Item σ P E A → Bool) (f : σ → α) (x : α) (h : History σ P E A) : α :=
  h.foldl (fun x item => if counts item then f item.after else x) x

theorem leftBy_snoc (counts : Item σ P E A → Bool) (f : σ → α) (x : α) (h : History σ P E A)
    (item : Item σ P E A) : leftBy counts f x (h ++ [item]) =
      if counts item then f item.after else leftBy counts f x h :=
  List.foldl_append

theorem leftBy_append {counts : Item σ P E A → Bool} {f : σ → α} {x : α}
    {h later : History σ P E A} (none : ∀ item ∈ later, counts item = false) :
    leftBy counts f x (h ++ later) = leftBy counts f x h := by
  induction later generalizing h with
  | nil => rw [List.append_nil]
  | cons item later ih =>
    rw [List.append_cons, ih fun item here => none item (List.mem_cons_of_mem _ here), leftBy_snoc,
      none item List.mem_cons_self]
    rfl

theorem leftBy_congr {counts counts' : Item σ P E A → Bool} {f : σ → α} {x : α}
    {h : History σ P E A} (same : ∀ item ∈ h, counts item = counts' item) :
    leftBy counts f x h = leftBy counts' f x h := by
  induction h generalizing x with
  | nil => rfl
  | cons item h ih =>
    have here := same item List.mem_cons_self
    simp only [leftBy, List.foldl_cons, here]
    exact ih fun item later => same item (List.mem_cons_of_mem _ later)

theorem leftBy_any {counts : Item σ P E A → Bool} {f : σ → α} {x y : α}
    {h later : History σ P E A} (some : later.any counts = true) :
    leftBy counts f x (h ++ later) = leftBy counts f y later := by
  unfold leftBy
  rw [List.foldl_append]
  generalize List.foldl _ x h = z
  induction later generalizing y z with
  | nil => cases some
  | cons item later ih =>
    simp only [List.foldl_cons]
    cases counted : counts item with
    | true => rfl
    | false =>
      rw [List.any_cons, counted] at some
      exact ih some z

/-- Where all other items leave the observation alone, it is what the last one that counts
    left. -/
theorem path_leftBy {Φ : Type} {m : Meaning σ P E A} {moves : Φ → Item σ P E A → Φ → Prop}
    {first φ : Φ} {start s : σ} {h : History σ P E A} {counts : Item σ P E A → Bool} {f : σ → α}
    (alone : ∀ s item, item ∈ h → Happens m s item → counts item = false → f item.after = f s)
    (path : Path m moves first start h φ s) : f s = leftBy counts f (f start) h := by
  induction path with
  | nil => rfl
  | @snoc h φ φ' s item path happens may ih =>
    rw [leftBy_snoc]
    cases counted : counts item with
    | true => rfl
    | false =>
      have here := alone s item (List.mem_append_right h List.mem_cons_self) happens counted
      exact here.trans (ih fun s item earlier => alone s item (List.mem_append_left _ earlier))

end Remains
end HostProgram

namespace ReentrantMachine
open HostProgram

variable {σ P E A Op Ev : Type}

namespace Bridge
variable {M : Bridge σ P E A Op Ev}

theorem run_state_invariant (J : σ → Prop)
    (kept : ∀ m s', J m.before → M.perform m = some s' → J s')
    {labels : List (Label A Op Ev)} {c d : Config σ P E A Op} (start : J c.state)
    (ran : M.run labels c = some d) : J d.state := by
  have always : M.Respects (fun _ => True) labels c := fun _ _ => trivial
  apply run_invariant (fun c => J c.state) _ start always ran
  intro l c c' held _ taken
  obtain ⟨m, -, same, acts⟩ := step_performs taken
  exact kept m _ (same ▸ held) acts

theorem reply_invariant (J : σ → Prop) (kept : ∀ m s', J m.before → M.perform m = some s' → J s')
    {e : E} {a : A} {s s' : σ} (reply : M.Reply e s a s') (start : J s) : J s' := by
  obtain ⟨s₁, s₂, labels, left, ran, back⟩ := reply
  have first : J s₁ := kept ⟨.depart e, none, s⟩ s₁ start left
  have second : J s₂ := by
    apply run_state_invariant J kept _ ran
    exact first
  exact kept ⟨.deliver e a, none, s₂⟩ s' second back

/-- Inside a call the other side acts by events, and starts native programs that come to
    their end. -/
theorem reply_by_calls (J : σ → Prop) {e : E} {a : A} {s s' : σ} (reply : M.Reply e s a s')
    (left : ∀ s₁, M.depart e s = some s₁ → J s₁)
    (events : ∀ v s₁ s₂, J s₁ → M.event v (some e) s₁ = some s₂ → J s₂)
    (calls : ∀ o s₁ s₂ p trace b t s₃, J s₁ → M.caller o = M.side e →
      M.start o (some e) s₁ = some (s₂, p) → Exec M.meaning p s₂ trace (.returned b) t →
      M.finish o b t = some s₃ → J s₃)
    (back : ∀ s₁ s₂, J s₁ → M.deliver e a s₁ = some s₂ → J s₂) : J s' := by
  obtain ⟨s₁, s₂, labels, departs, ran, delivers⟩ := reply
  have during : ∀ labels s₁, J s₁ → M.run labels ⟨s₁, .outside, [.pending e .ret]⟩ =
      some ⟨s₂, .outside, [.pending e .ret]⟩ → J s₂ := by
    intro labels
    induction size : labels.length using Nat.strongRecOn generalizing labels with
    | ind n ih =>
      intro s₁ held ran
      cases labels with
      | nil =>
        cases ran
        exact held
      | cons l labels =>
        obtain ⟨c, taken, rest⟩ := run_cons ran
        rw [List.length_cons] at size
        cases step_taken taken with
        | @event v _ s₃ _ acts =>
          exact ih labels.length (by omega) labels rfl s₃ (events v s₁ s₃ held acts) rest
        | @call o _ s₃ p _ called starts =>
          rcases exec_of_run rest with ⟨inner, stays⟩ | ⟨first, second, b, t, s₄, trace, rfl, run, done, on⟩
          · have deep := congrArg List.length stays
            simp at deep
          · rw [List.length_append, List.length_cons] at size
            have next := calls o s₁ s₃ p trace b t s₄ held called starts run done
            exact ih second.length (by omega) second rfl s₄ next on
        | answer back =>
          -- with nothing below it the answer leads nowhere
          cases labels with
          | nil => cases rest
          | cons l labels =>
            obtain ⟨c, stuck, -⟩ := run_cons rest
            cases step_taken stuck
  exact back s₂ s' (during labels s₁ (left s₁ departs) ran) delivers

theorem reply_by_events (J : σ → Prop) {e : E} {a : A} {s s' : σ} (reply : M.Reply e s a s')
    (idle : ∀ o s, M.caller o = M.side e → M.start o (some e) s = none)
    (left : ∀ s₁, M.depart e s = some s₁ → J s₁)
    (events : ∀ v s₁ s₂, J s₁ → M.event v (some e) s₁ = some s₂ → J s₂)
    (back : ∀ s₁ s₂, J s₁ → M.deliver e a s₁ = some s₂ → J s₂) : J s' := by
  apply reply_by_calls J reply left events _ back
  intro o s₁ s₂ p trace b t s₃ held called starts
  cases (idle o s₁ called).symm.trans starts

end Bridge
end ReentrantMachine
