import Hacep.Lib.Lts

/-!
# Observations and simulations

`trace` is what a run lets one observe: an observation of every step, in order. The observations may
be outputs, or actions of another system, and then the trace is a run of that system.

A `Simulation` relates the states of a concrete system to those of an abstract one, so that a
concrete step from related states is matched by the abstract actions that it stands for: none where
the step is internal, and several where it does the work of several. It need only be told what the
steps that meet a guard do. `Simulation.run` lifts it to whole runs, and `Simulation.run_trace` adds
that the two runs let one observe the same.
-/

namespace Lts

variable {σ ι γ : Type}

/-- What is observed of a run, step by step. -/
def trace (L : Lts σ ι) (obs : σ → ι → List γ) : σ → List ι → List γ
  | _, [] => []
  | s, a :: as => obs s a ++ (L.step s a).elim [] fun s' => L.trace obs s' as

variable (L : Lts σ ι)

@[simp]
theorem trace_nil (obs : σ → ι → List γ) (s : σ) : L.trace obs s [] = [] := rfl

/-- A run lets one observe its first step and then the rest. -/
theorem trace_cons {obs : σ → ι → List γ} {s s' : σ} {a : ι} {as : List ι}
    (hs : L.step s a = some s') : L.trace obs s (a :: as) = obs s a ++ L.trace obs s' as := by
  rw [trace, hs, Option.elim_some]

/-- Two runs one after the other let one observe the one and then the other. -/
theorem trace_append {obs : σ → ι → List γ} {as bs : List ι} :
    ∀ {s s' : σ}, L.exec s as = some s' →
      L.trace obs s (as ++ bs) = L.trace obs s as ++ L.trace obs s' bs := by
  induction as with
  | nil =>
    intro s s' he
    rw [exec_nil, Option.some.injEq] at he
    rw [he, List.nil_append, trace_nil, List.nil_append]
  | cons a as ih =>
    intro s s'' he
    obtain ⟨s', hs', he'⟩ := L.exec_cons_eq_some.1 he
    rw [List.cons_append, L.trace_cons hs', L.trace_cons hs', ih he', List.append_assoc]

/-- What is made of each observation, where it does not depend on the state, is made of the actions.
-/
theorem trace_flatMap {δ : Type} {obs : σ → ι → List γ} {f : γ → List δ} {log : ι → List δ}
    (hlog : ∀ s a, (obs s a).flatMap f = log a) {as : List ι} :
    ∀ {s s' : σ}, L.exec s as = some s' → (L.trace obs s as).flatMap f = as.flatMap log := by
  induction as with
  | nil => exact fun _ => rfl
  | cons a as ih =>
    intro s s'' he
    obtain ⟨s', hs', he'⟩ := L.exec_cons_eq_some.1 he
    rw [L.trace_cons hs', List.flatMap_append, ih he', hlog, List.flatMap_cons]

/-- What one observes of the actions alone. -/
theorem trace_const {log : ι → List γ} {as : List ι} :
    ∀ {s s' : σ}, L.exec s as = some s' → L.trace (fun _ a => log a) s as = as.flatMap log := by
  induction as with
  | nil => exact fun _ => rfl
  | cons a as ih =>
    intro s s'' he
    obtain ⟨s', hs', he'⟩ := L.exec_cons_eq_some.1 he
    rw [L.trace_cons hs', ih he', List.flatMap_cons]

/-- What every guarded step appends to a log in the state, a guarded run appends. -/
theorem guarded_log {ok : σ → ι → Prop} (log : σ → List γ) (obs : σ → ι → List γ)
    (hstep : ∀ s a s', ok s a → L.step s a = some s' → log s' = log s ++ obs s a) {as : List ι} :
    ∀ {s s' : σ}, L.Guarded ok s as → L.exec s as = some s' →
      log s' = log s ++ L.trace obs s as := by
  induction as with
  | nil =>
    intro s s' _ he
    rw [exec_nil, Option.some.injEq] at he
    rw [he, trace_nil, List.append_nil]
  | cons a as ih =>
    intro s s'' hok he
    obtain ⟨s', hs', he'⟩ := L.exec_cons_eq_some.1 he
    rw [ih (hok.2 s' hs') he', hstep s a s' hok.1 hs', L.trace_cons hs', List.append_assoc]

end Lts

/-- A simulation of an abstract system by the guarded steps of a concrete one. -/
structure Simulation {σ ι τ κ : Type} (C : Lts σ ι) (A : Lts τ κ) (ok : σ → ι → Prop)
    (label : σ → ι → List κ) where
  /-- The abstract states that a concrete state may stand for. -/
  rel : σ → τ → Prop
  /-- The abstract system can take the actions that a concrete step stands for. -/
  step : ∀ {s t a s'}, rel s t → ok s a → C.step s a = some s' →
    ∃ t', A.exec t (label s a) = some t' ∧ rel s' t'

namespace Simulation

variable {σ ι τ κ γ : Type} {C : Lts σ ι} {A : Lts τ κ} {ok : σ → ι → Prop}
  {label : σ → ι → List κ}

/-- A simulation of the steps that meet a stronger condition. -/
def strengthen (R : Simulation C A ok label) (ok' : σ → ι → Prop) (h : ∀ s a, ok' s a → ok s a) :
    Simulation C A ok' label where
  rel := R.rel
  step hrel hok hs := R.step hrel (h _ _ hok) hs

/-- A guarded run of the concrete system is matched by the run of the abstract one that it stands
for. -/
theorem run (R : Simulation C A ok label) {as : List ι} :
    ∀ {s s' : σ} {t : τ}, R.rel s t → C.Guarded ok s as → C.exec s as = some s' →
      ∃ t', A.exec t (C.trace label s as) = some t' ∧ R.rel s' t' := by
  induction as with
  | nil =>
    intro s s' t h _ he
    rw [Lts.exec_nil, Option.some.injEq] at he
    exact ⟨t, rfl, he ▸ h⟩
  | cons a as ih =>
    intro s s'' t h hok he
    obtain ⟨s', hs', he'⟩ := C.exec_cons_eq_some.1 he
    obtain ⟨t', ht', h'⟩ := R.step h hok.1 hs'
    obtain ⟨t'', ht'', h''⟩ := ih h' (hok.2 s' hs') he'
    refine ⟨t'', ?_, h''⟩
    rw [C.trace_cons hs', A.exec_append, ht', Option.bind_some, ht'']

/-- Where the guard of a step guards the actions that it stands for, the guard of a run guards the
run that it stands for. -/
theorem run_guarded (R : Simulation C A ok label) (ok' : τ → κ → Prop)
    (hok : ∀ s t a s', R.rel s t → ok s a → C.step s a = some s' → A.Guarded ok' t (label s a))
    {as : List ι} :
    ∀ {s s' : σ} {t : τ}, R.rel s t → C.Guarded ok s as → C.exec s as = some s' →
      A.Guarded ok' t (C.trace label s as) := by
  induction as with
  | nil => exact fun _ _ _ => trivial
  | cons a as ih =>
    intro s s'' t h hguarded he
    obtain ⟨s', hs', he'⟩ := C.exec_cons_eq_some.1 he
    obtain ⟨t', ht', h'⟩ := R.step h hguarded.1 hs'
    rw [C.trace_cons hs', A.guarded_append ht']
    exact ⟨hok s t a s' h hguarded.1 hs', ih h' (hguarded.2 s' hs') he'⟩

/-- Where related states let one observe the same of a step and of the actions that it stands for,
the two runs let one observe the same. -/
theorem run_trace (R : Simulation C A ok label) (obs : σ → ι → List γ) (obs' : τ → κ → List γ)
    (hobs : ∀ s t a s', R.rel s t → ok s a → C.step s a = some s' →
      obs s a = A.trace obs' t (label s a)) {as : List ι} :
    ∀ {s s' : σ} {t : τ}, R.rel s t → C.Guarded ok s as → C.exec s as = some s' →
      C.trace obs s as = A.trace obs' t (C.trace label s as) := by
  induction as with
  | nil => exact fun _ _ _ => rfl
  | cons a as ih =>
    intro s s'' t h hok he
    obtain ⟨s', hs', he'⟩ := C.exec_cons_eq_some.1 he
    obtain ⟨t', ht', h'⟩ := R.step h hok.1 hs'
    rw [C.trace_cons hs', C.trace_cons hs', A.trace_append ht', hobs s t a s' h hok.1 hs',
      ih h' (hok.2 s' hs') he']

end Simulation
