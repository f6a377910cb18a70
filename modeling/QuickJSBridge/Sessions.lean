import QuickJSBridge.ExecutionHistories

/- Runs that come to rest. Where no call is pending, a run of the machine is a sequence of
   operations of the host, each of them executed to its end. -/
namespace ReentrantMachine
open HostProgram

variable {σ P E A Op Ev : Type}

/-- An operation, the state it was called in and what it issued. -/
structure Operation (σ P E A Op : Type) where
  op : Op
  before : σ
  history : History σ P E A

namespace Bridge
variable (M : Bridge σ P E A Op Ev)

inductive Session (s : σ) : List (Operation σ P E A Op) → σ → Prop where
  | rest : Session s [] s
  | event {ops : List (Operation σ P E A Op)} {v : Ev} {t u : σ} (session : Session s ops t)
      (acts : M.event v none t = some u) : Session s ops u
  | call {ops : List (Operation σ P E A Op)} {o : Op} {t t' u u' : σ} {p : Native P E A}
      {h : History σ P E A} {a : A} (session : Session s ops t) (called : M.caller o = .host)
      (starts : M.start o none t = some (t', p)) (run : Exec M.meaning p t' h (.returned a) u)
      (done : M.finish o a u = some u') : Session s (ops ++ [⟨o, t, h⟩]) u'

variable {M}

theorem session_invariant {s u : σ} {ops : List (Operation σ P E A Op)}
    (J : List (Operation σ P E A Op) → σ → Prop) (session : M.Session s ops u) (start : J [] s)
    (events : ∀ ops v t u, J ops t → M.event v none t = some u → J ops u)
    (calls : ∀ ops o t t' u u' p h a, J ops t → M.start o none t = some (t', p) →
      Exec M.meaning p t' h (.returned a) u → M.finish o a u = some u' →
      J (ops ++ [⟨o, t, h⟩]) u') : J ops u := by
  induction session with
  | rest => exact start
  | event session acts ih => exact events _ _ _ _ ih acts
  | call session called starts run done ih => exact calls _ _ _ _ _ _ _ _ _ ih starts run done

theorem session_of_run {labels : List (Label A Op Ev)} {s u : σ}
    (ran : M.run labels ⟨s, .outside, []⟩ = some ⟨u, .outside, []⟩) :
    ∃ ops, M.Session s ops u := by
  have further : ∀ labels ops t, M.Session s ops t →
      M.run labels ⟨t, .outside, []⟩ = some ⟨u, .outside, []⟩ → ∃ ops, M.Session s ops u := by
    intro labels
    induction size : labels.length using Nat.strongRecOn generalizing labels with
    | ind n ih =>
      intro ops t session ran
      cases labels with
      | nil =>
        cases ran
        exact ⟨ops, session⟩
      | cons l labels =>
        obtain ⟨c, taken, rest⟩ := run_cons ran
        rw [List.length_cons] at size
        cases step_taken taken with
        | @event _ _ t' _ acts =>
          exact ih labels.length (by omega) labels rfl ops t' (.event session acts) rest
        | @call o _ _ _ _ called starts =>
          rcases exec_of_run rest with ⟨inner, stays⟩ | ⟨first, second, a, v, v', h, rfl, run, done, on⟩
          · simp at stays
          · rw [List.length_append, List.length_cons] at size
            have next : M.Session s (ops ++ [⟨o, t, h⟩]) v' := .call session called starts run done
            exact ih second.length (by omega) second rfl _ v' next on
  exact further labels [] s .rest ran

theorem run_of_session {s u : σ} {ops : List (Operation σ P E A Op)} (session : M.Session s ops u) :
    ∃ labels, M.run labels ⟨s, .outside, []⟩ = some ⟨u, .outside, []⟩ := by
  induction session with
  | rest => exact ⟨[], rfl⟩
  | @event ops v t u session acts ih =>
    obtain ⟨labels, ran⟩ := ih
    exact ⟨labels ++ [.event v], by simp [run_append, ran, run, step, context, acts]⟩
  | @call ops o t t' u u' p h a session called starts run done ih =>
    obtain ⟨labels, ran⟩ := ih
    obtain ⟨inside, there⟩ := run_of_exec run [.caller o]
    refine ⟨labels ++ (.call o :: (inside ++ [.tau])), ?_⟩
    simp [run_append, ran, Bridge.run, step, context, sideOf, starts, called, there, done]

section Possible
variable {good : Operation σ P E A Op → Prop} {s t t' u : σ} {Q : List (Operation σ P E A Op) → σ → Prop}

/-- A session of good operations that has come this far can come to `Q`. -/
def CanGoOn (M : Bridge σ P E A Op Ev) (good : Operation σ P E A Op → Prop) (s t : σ)
    (Q : List (Operation σ P E A Op) → σ → Prop) : Prop :=
  ∀ ops, M.Session s ops t → (∀ x ∈ ops, good x) →
    ∃ ops' u, M.Session s ops' u ∧ (∀ x ∈ ops', good x) ∧ Q ops' u

theorem canGoOn_rest (now : ∀ ops, Q ops t) : M.CanGoOn good s t Q :=
  fun ops session all => ⟨ops, t, session, all, now ops⟩

theorem canGoOn_event {v : Ev} (acts : M.event v none t = some u) (later : M.CanGoOn good s u Q) :
    M.CanGoOn good s t Q :=
  fun ops session all => later ops (.event session acts) all

theorem canGoOn_call {o : Op} {p : Native P E A} (called : M.caller o = .host)
    (starts : M.start o none t = some (t', p))
    (body : Can M.meaning p [] t' fun a h u => good ⟨o, t, h⟩ ∧
      ∃ u', M.finish o a u = some u' ∧ M.CanGoOn good s u' Q) : M.CanGoOn good s t Q := by
  intro ops session all
  obtain ⟨a, h, u, run, here, u', done, later⟩ := body
  apply later (ops ++ [⟨o, t, h⟩]) (.call session called starts run done)
  rw [List.forall_mem_append, List.forall_mem_singleton]
  exact ⟨all, here⟩

end Possible

end Bridge
end ReentrantMachine
