import Mathlib

/-!
# Executable labelled transition systems

A system is a function that takes a state and an action to the next state, or to nothing where the
action is not enabled. A run is a list of actions. `exec` executes it, so that a concrete run is
evaluated by the kernel, and the two rules of induction say what a whole run preserves from what one
step preserves: `exec_invariant` for every run, and `exec_guarded_invariant` for the runs whose
steps all meet a condition on the state before them; `guarded_of_exec` is the converse of the
latter, for a condition whose violation shows in every later state. A prefix of a run is a run
(`exec_append`), so what holds in the last state of every run holds in every state that a run passes
through.

`Always` says of one run that every state it passes through has a property. Where each step keeps
the property exactly when it meets a condition, `always_iff_guarded` turns it into the condition on
the steps.
-/

/-- A labelled transition system over states `σ` and actions `ι`. -/
structure Lts (σ ι : Type) where
  /-- The state after an action, or `none` where the action is not enabled. -/
  step : σ → ι → Option σ

namespace Lts

variable {σ ι : Type}

/-- The state after a list of actions, or `none` where one of them is not enabled. -/
def exec (L : Lts σ ι) : σ → List ι → Option σ
  | s, [] => some s
  | s, a :: as => (L.step s a).bind fun s' => L.exec s' as

/-- Every action of a run meets the condition `ok` in the state in which it is taken. -/
def Guarded (L : Lts σ ι) (ok : σ → ι → Prop) : σ → List ι → Prop
  | _, [] => True
  | s, a :: as => ok s a ∧ ∀ s', L.step s a = some s' → L.Guarded ok s' as

/-- Every state that a run passes through, the first and the last one included, has the property. -/
def Always (L : Lts σ ι) (P : σ → Prop) : σ → List ι → Prop
  | s, [] => P s
  | s, a :: as => P s ∧ ∀ s', L.step s a = some s' → L.Always P s' as

variable (L : Lts σ ι)

/-- Whether a run is guarded is decided by executing it. -/
instance Guarded.decidable (ok : σ → ι → Prop) [∀ s a, Decidable (ok s a)] :
    ∀ s as, Decidable (L.Guarded ok s as)
  | _, [] => isTrue trivial
  | s, a :: as =>
    match h : L.step s a with
    | none => decidable_of_iff (ok s a)
      ⟨fun h' => ⟨h', fun _ hs => nomatch h.symm.trans hs⟩, fun h' => h'.1⟩
    | some s' =>
      have := Guarded.decidable ok s' as
      decidable_of_iff (ok s a ∧ L.Guarded ok s' as)
        ⟨fun h' => ⟨h'.1, fun _ ht => Option.some.inj (h.symm.trans ht) ▸ h'.2⟩,
          fun h' => ⟨h'.1, h'.2 s' h⟩⟩

@[simp]
theorem exec_nil (s : σ) : L.exec s [] = some s := rfl

/-- A run that starts with an action takes it and then runs on. -/
theorem exec_cons_eq_some {s s'' : σ} {a : ι} {as : List ι} :
    L.exec s (a :: as) = some s'' ↔ ∃ s', L.step s a = some s' ∧ L.exec s' as = some s'' := by
  simp [exec, Option.bind_eq_some_iff]

/-- A run that is guarded by a condition is guarded by every weaker one. -/
theorem Guarded.mono {ok ok' : σ → ι → Prop} (hok : ∀ s a, ok s a → ok' s a) {as : List ι} :
    ∀ {s : σ}, L.Guarded ok s as → L.Guarded ok' s as := by
  induction as with
  | nil => exact fun _ => trivial
  | cons a as ih => exact fun h => ⟨hok _ a h.1, fun s' hs' => ih (h.2 s' hs')⟩

/-- A run that is guarded by two conditions is guarded by both at once. -/
theorem Guarded.and {ok ok' : σ → ι → Prop} {as : List ι} :
    ∀ {s : σ}, L.Guarded ok s as → L.Guarded ok' s as →
      L.Guarded (fun s a => ok s a ∧ ok' s a) s as := by
  induction as with
  | nil => exact fun _ _ => trivial
  | cons a as ih =>
    exact fun h h' => ⟨⟨h.1, h'.1⟩, fun s' hs' => ih (h.2 s' hs') (h'.2 s' hs')⟩

/-- A run is guarded when its first step meets the guard and the rest is guarded from there. -/
theorem guarded_cons_iff {ok : σ → ι → Prop} {s s' : σ} {a : ι} {as : List ι}
    (hs : L.step s a = some s') :
    L.Guarded ok s (a :: as) ↔ ok s a ∧ L.Guarded ok s' as := by
  refine and_congr_right fun _ => ⟨fun h => h s' hs, fun h t ht => ?_⟩
  rw [hs, Option.some.injEq] at ht
  exact ht ▸ h

/-- A property holds throughout a run when it holds at the start and throughout the rest. -/
theorem always_cons_iff {P : σ → Prop} {s s' : σ} {a : ι} {as : List ι}
    (hs : L.step s a = some s') : L.Always P s (a :: as) ↔ P s ∧ L.Always P s' as := by
  refine and_congr_right fun _ => ⟨fun h => h s' hs, fun h t ht => ?_⟩
  rw [hs, Option.some.injEq] at ht
  exact ht ▸ h

/-- Running two lists of actions one after the other is running their concatenation. -/
theorem exec_append (s : σ) (as bs : List ι) :
    L.exec s (as ++ bs) = (L.exec s as).bind fun s' => L.exec s' bs := by
  induction as generalizing s with
  | nil => rfl
  | cons a as ih =>
    simp only [List.cons_append, exec, Option.bind_assoc]
    congr 1
    funext s'
    exact ih s'

/-- A part of a run is a run. -/
theorem exec_of_infix {as bs : List ι} {s s' : σ} (hbs : bs <:+: as) (he : L.exec s as = some s') :
    ∃ cs s₁ s₂, L.exec s cs = some s₁ ∧ L.exec s₁ bs = some s₂ := by
  obtain ⟨cs, ds, rfl⟩ := hbs
  rw [exec_append, Option.bind_eq_some_iff] at he
  obtain ⟨s₂, he, -⟩ := he
  rw [exec_append, Option.bind_eq_some_iff] at he
  obtain ⟨s₁, hcs, hbs⟩ := he
  exact ⟨cs, s₁, s₂, hcs, hbs⟩

/-- A run is guarded when its first part is and the second part is from there. -/
theorem guarded_append {ok : σ → ι → Prop} {as bs : List ι} :
    ∀ {s s' : σ}, L.exec s as = some s' →
      (L.Guarded ok s (as ++ bs) ↔ L.Guarded ok s as ∧ L.Guarded ok s' bs) := by
  induction as with
  | nil =>
    intro s s' he
    rw [exec_nil, Option.some.injEq] at he
    rw [he]
    exact (and_iff_right trivial).symm
  | cons a as ih =>
    intro s s'' he
    obtain ⟨s', hs', he'⟩ := L.exec_cons_eq_some.1 he
    rw [List.cons_append, L.guarded_cons_iff hs', L.guarded_cons_iff hs', ih he', and_assoc]

/-- What every step that meets the guard preserves, every guarded run preserves. -/
theorem exec_guarded_invariant (ok : σ → ι → Prop) (Inv : σ → Prop)
    (hstep : ∀ s a s', Inv s → ok s a → L.step s a = some s' → Inv s') {as : List ι} :
    ∀ {s s' : σ}, Inv s → L.Guarded ok s as → L.exec s as = some s' → Inv s' := by
  induction as with
  | nil =>
    intro s s' hs _ he
    rw [exec_nil, Option.some.injEq] at he
    exact he ▸ hs
  | cons a as ih =>
    intro s s'' hs hg he
    obtain ⟨s', hs', he'⟩ := L.exec_cons_eq_some.1 he
    exact ih (hstep s a s' hs hg.1 hs') (hg.2 s' hs') he'

/-- A run is guarded by the condition that is always met. -/
theorem guarded_true (s : σ) (as : List ι) : L.Guarded (fun _ _ => True) s as := by
  induction as generalizing s with
  | nil => trivial
  | cons a as ih => exact ⟨trivial, fun s' _ => ih s'⟩

/-- What every step preserves, every run preserves. -/
theorem exec_invariant (Inv : σ → Prop)
    (hstep : ∀ s a s', Inv s → L.step s a = some s' → Inv s') {as : List ι} {s s' : σ}
    (hs : Inv s) (he : L.exec s as = some s') : Inv s' :=
  L.exec_guarded_invariant _ Inv (fun s a s' h _ => hstep s a s' h) hs (L.guarded_true s as) he

/-- A run is guarded when it ends in a state that is not bad, where a step that misses the guard
makes the state bad and no step mends it. -/
theorem guarded_of_exec (ok : σ → ι → Prop) (Inv Bad : σ → Prop)
    (hinv : ∀ s a s', Inv s → L.step s a = some s' → Inv s')
    (hmiss : ∀ s a s', Inv s → L.step s a = some s' → ¬ok s a → Bad s')
    (hkeep : ∀ s a s', Bad s → L.step s a = some s' → Bad s') {as : List ι} :
    ∀ {s s' : σ}, Inv s → L.exec s as = some s' → ¬Bad s' → L.Guarded ok s as := by
  induction as with
  | nil => exact fun _ _ _ => trivial
  | cons a as ih =>
    intro s s'' hs he hgood
    obtain ⟨s', hs', he'⟩ := L.exec_cons_eq_some.1 he
    refine (L.guarded_cons_iff hs').2 ⟨?_, ih (hinv s a s' hs hs') he' hgood⟩
    by_contra hok
    exact hgood (L.exec_invariant Bad hkeep (hmiss s a s' hs hs' hok) he')

/-- Where a step that meets the guard keeps a good state good, one that misses it makes the state
bad, and no step mends a bad state, a run ends well exactly when it is guarded. -/
theorem good_or_bad (ok : σ → ι → Prop) (Good Bad : σ → Prop)
    (hgood : ∀ s a s', Good s → ok s a → L.step s a = some s' → Good s')
    (hmiss : ∀ s a s', Good s → ¬ok s a → L.step s a = some s' → Bad s')
    (hkeep : ∀ s a s', Bad s → L.step s a = some s' → Bad s') {as : List ι} {s s' : σ}
    (hs : Good s) (he : L.exec s as = some s') :
    L.Guarded ok s as ∧ Good s' ∨ ¬L.Guarded ok s as ∧ Bad s' := by
  by_cases hguarded : L.Guarded ok s as
  · exact .inl ⟨hguarded, L.exec_guarded_invariant ok Good hgood hs hguarded he⟩
  · refine .inr ⟨hguarded, ?_⟩
    by_contra hbad
    refine hguarded (L.guarded_of_exec ok (fun s => Good s ∨ Bad s) Bad ?_ ?_ hkeep (.inl hs) he hbad)
    · rintro s a s' (hs | hs) hstep
      · by_cases hok : ok s a
        · exact .inl (hgood s a s' hs hok hstep)
        · exact .inr (hmiss s a s' hs hok hstep)
      · exact .inr (hkeep s a s' hs hstep)
    · rintro s a s' (hs | hs) hstep hok
      · exact hmiss s a s' hs hok hstep
      · exact hkeep s a s' hs hstep

/-- A property that a step keeps exactly when the step meets the guard holds throughout a run
exactly when the run is guarded. -/
theorem always_iff_guarded (ok : σ → ι → Prop) (Inv Good : σ → Prop)
    (hinv : ∀ s a s', Inv s → Good s → L.step s a = some s' → Inv s')
    (hgood : ∀ s a s', Inv s → Good s → L.step s a = some s' → (Good s' ↔ ok s a)) {as : List ι} :
    ∀ {s s' : σ}, Inv s → Good s → L.exec s as = some s' →
      (L.Always Good s as ↔ L.Guarded ok s as) := by
  induction as with
  | nil =>
    intro s s' _ hs _
    exact ⟨fun _ => trivial, fun _ => hs⟩
  | cons a as ih =>
    intro s s'' hi hs he
    obtain ⟨s', hs', he'⟩ := L.exec_cons_eq_some.1 he
    have hi' : Inv s' := hinv s a s' hi hs hs'
    have hiff : Good s' ↔ ok s a := hgood s a s' hi hs hs'
    rw [L.always_cons_iff hs', L.guarded_cons_iff hs']
    constructor
    · rintro ⟨-, hrest⟩
      have hgood' : Good s' := by
        cases as with
        | nil => exact hrest
        | cons b bs => exact hrest.1
      exact ⟨hiff.1 hgood', (ih hi' hgood' he').1 hrest⟩
    · rintro ⟨hok, hguarded⟩
      exact ⟨hs, (ih hi' (hiff.2 hok) he').2 hguarded⟩

/-- What follows from an invariant of the guarded steps holds throughout a guarded run. -/
theorem always_of_guarded (ok : σ → ι → Prop) (Inv Good : σ → Prop) (hgood : ∀ s, Inv s → Good s)
    (hstep : ∀ s a s', Inv s → ok s a → L.step s a = some s' → Inv s') {as : List ι} :
    ∀ {s : σ}, Inv s → L.Guarded ok s as → L.Always Good s as := by
  induction as with
  | nil => exact fun {s} hs _ => hgood s hs
  | cons a as ih =>
    intro s hs hguarded
    exact ⟨hgood s hs, fun s' hs' => ih (hstep s a s' hs hguarded.1 hs') (hguarded.2 s' hs')⟩

/-- What every step appends to an observation of the state, a run appends. -/
theorem exec_log {γ : Type} (obs : σ → List γ) (log : ι → List γ)
    (hstep : ∀ s a s', L.step s a = some s' → obs s' = obs s ++ log a) {as : List ι} :
    ∀ {s s' : σ}, L.exec s as = some s' → obs s' = obs s ++ as.flatMap log := by
  induction as with
  | nil =>
    intro s s' he
    rw [exec_nil, Option.some.injEq] at he
    rw [he, List.flatMap_nil, List.append_nil]
  | cons a as ih =>
    intro s s'' he
    obtain ⟨s', hs', he'⟩ := L.exec_cons_eq_some.1 he
    rw [ih he', hstep s a s' hs', List.flatMap_cons, List.append_assoc]

end Lts
