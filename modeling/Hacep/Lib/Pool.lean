import Mathlib

/-!
# Threads over a shared state

A pool is a shared state and a list of threads; a thread keeps its number. A step of thread `i`
changes the shared state and that thread. `Alone` says that no other thread has a property and
`Exclusive` that at most one thread has it: a step keeps the latter when the thread has the property
afterwards only if it had it before, or is alone (`Exclusive.step`).

What the threads contribute to an observation of the whole pool is `gather`. A step changes it only
at the thread that takes it (`gather_set_of_eq`), and where the other threads contribute nothing it
is the contribution of that thread (`gather_of_alone`).
-/

/-- A shared state and the threads that work on it. -/
structure Pool (σ τ : Type) where
  shared : σ
  threads : List τ := []

namespace Pool

variable {σ τ α : Type}

/-- A new thread. -/
def spawn (p : Pool σ τ) (t : τ) : Pool σ τ := { p with threads := p.threads ++ [t] }

/-- What a step of thread `i` leaves: the shared state and the thread after it. -/
def set (p : Pool σ τ) (i : ℕ) (s : σ) (t : τ) : Pool σ τ := ⟨s, p.threads.set i t⟩

/-- A change of every thread. -/
def map (g : τ → τ) (p : Pool σ τ) : Pool σ τ := { p with threads := p.threads.map g }

/-- No thread but `i` has the property. -/
def Alone (P : τ → Prop) (p : Pool σ τ) (i : ℕ) : Prop :=
  ∀ j t, j ≠ i → p.threads[j]? = some t → ¬P t

/-- At most one thread has the property. -/
def Exclusive (P : τ → Prop) (p : Pool σ τ) : Prop :=
  ∀ i t, p.threads[i]? = some t → P t → p.Alone P i

/-- What the threads contribute, in their order. -/
def gather (f : τ → List α) (p : Pool σ τ) : List α := p.threads.flatMap f

variable {P : τ → Prop} {p : Pool σ τ} {i : ℕ} {s : σ} {t t' : τ}

@[simp]
theorem set_shared : (p.set i s t).shared = s := rfl

theorem mem_of_getElem? (h : p.threads[i]? = some t) : t ∈ p.threads := List.mem_of_getElem? h

theorem mem_spawn {u : τ} : u ∈ (p.spawn t).threads ↔ u ∈ p.threads ∨ u = t := by
  simp [spawn]

/-- Whether no other thread has a property is decided by looking at the others. -/
theorem alone_iff : p.Alone P i ↔ ∀ t ∈ p.threads.eraseIdx i, ¬P t := by
  simp only [List.mem_eraseIdx_iff_getElem?]
  constructor
  · rintro h t ⟨j, hj, ht⟩
    exact h j t hj ht
  · exact fun h j t hj ht => h t ⟨j, hj, ht⟩

/-- The threads after a step. -/
theorem getElem?_set (ht : p.threads[i]? = some t) (j : ℕ) :
    (p.set i s t').threads[j]? = if j = i then some t' else p.threads[j]? := by
  have hlt : i < p.threads.length := (List.getElem?_eq_some_iff.1 ht).1
  by_cases hji : j = i
  · subst hji
    rw [if_pos rfl]
    exact List.getElem?_set_self hlt
  · rw [if_neg hji]
    exact List.getElem?_set_ne (Ne.symm hji)

/-- The thread that took the step. -/
theorem getElem?_set_self (ht : p.threads[i]? = some t) : (p.set i s t').threads[i]? = some t' := by
  rw [getElem?_set ht, if_pos rfl]

/-- A thread from before a step is the one that took it, or is still there. -/
theorem mem_or_mem_set {u : τ} (ht : p.threads[i]? = some t) (hu : u ∈ p.threads) :
    u = t ∨ u ∈ (p.set i s t').threads := by
  obtain ⟨j, hj⟩ := List.mem_iff_getElem?.1 hu
  by_cases hji : j = i
  · rw [hji, ht] at hj
    exact .inl (Option.some.inj hj).symm
  · have hsame : (p.set i s t').threads[j]? = some u := by
      rw [getElem?_set ht, if_neg hji]
      exact hj
    exact .inr (mem_of_getElem? hsame)

/-- A thread after a step is the one that took it, or another one from before. -/
theorem mem_set {u : τ} (ht : p.threads[i]? = some t) (h : u ∈ (p.set i s t').threads) :
    u = t' ∨ ∃ j, j ≠ i ∧ p.threads[j]? = some u := by
  obtain ⟨j, hj⟩ := List.mem_iff_getElem?.1 h
  rw [getElem?_set ht] at hj
  split at hj
  · cases hj
    exact .inl rfl
  · exact .inr ⟨j, ‹_›, hj⟩

/-- A thread that takes a step leaves the others as they were. -/
theorem Alone.set (h : p.Alone P i) (ht : p.threads[i]? = some t) : (p.set i s t').Alone P i := by
  intro j u hj hu
  rw [getElem?_set ht, if_neg hj] at hu
  exact h j u hj hu

/-- A thread that does not come to the property by its step leaves another one alone with it. -/
theorem Alone.set_other {j : ℕ} (h : p.Alone P j) (ht : p.threads[i]? = some t) (hnot : ¬P t') :
    (p.set i s t').Alone P j := by
  intro k u hk hu
  rw [getElem?_set ht] at hu
  split at hu
  · cases hu
    exact hnot
  · exact h k u hk hu

/-- A step keeps a property exclusive where it does not bring it to a second thread. -/
theorem Exclusive.step (h : p.Exclusive P) (ht : p.threads[i]? = some t)
    (hnew : P t' → P t ∨ p.Alone P i) : (p.set i s t').Exclusive P := by
  intro j u hu hPu
  rw [getElem?_set ht] at hu
  by_cases hji : j = i
  · -- The thread that took the step.
    subst hji
    rw [if_pos rfl] at hu
    cases hu
    have halone : p.Alone P j := (hnew hPu).elim (h j t ht) id
    exact halone.set ht
  · -- Another thread has it, so the one that took the step neither had it nor has it now.
    rw [if_neg hji] at hu
    have halone := h j u hu hPu
    intro k v hk hv hPv
    rw [getElem?_set ht] at hv
    by_cases hki : k = i
    · subst hki
      rw [if_pos rfl] at hv
      cases hv
      rcases hnew hPv with hPt | hothers
      · exact halone k t hk ht hPt
      · exact hothers j u hji hu hPu
    · rw [if_neg hki] at hv
      exact halone k v hk hv hPv

/-- A thread after a new one has come is one from before, in its place, or the new one. -/
theorem getElem?_spawn {u : τ} (h : (p.spawn t).threads[i]? = some u) :
    p.threads[i]? = some u ∨ u = t := by
  simp only [Pool.spawn, List.getElem?_append] at h
  split at h
  · exact .inl h
  · exact .inr (List.mem_singleton.1 (List.mem_of_getElem? h))

/-- A new thread without the property leaves a thread alone with it. -/
theorem Alone.spawn (h : p.Alone P i) (ht : ¬P t) : (p.spawn t).Alone P i := by
  intro j u hj hu
  rcases getElem?_spawn hu with hu | rfl
  · exact h j u hj hu
  · exact ht

/-- A new thread without the property keeps it exclusive. -/
theorem Exclusive.spawn (h : p.Exclusive P) (ht : ¬P t) : (p.spawn t).Exclusive P := by
  intro i u hu hPu
  rcases getElem?_spawn hu with hu | rfl
  · exact (h i u hu hPu).spawn ht
  · exact absurd hPu ht

/-- A change of the threads that brings the property to none of them keeps it exclusive. -/
theorem Exclusive.map {g : τ → τ} (h : p.Exclusive P) (hg : ∀ t, P (g t) → P t) :
    (p.map g).Exclusive P := by
  intro i u hu hPu j v hj hv hPv
  rw [Pool.map, List.getElem?_map, Option.map_eq_some_iff] at hu hv
  obtain ⟨t, ht, rfl⟩ := hu
  obtain ⟨t', ht', rfl⟩ := hv
  exact h i t ht (hg t hPu) j t' hj ht' (hg t' hPv)

/-- A change of the threads that keeps what each of them contributes changes nothing. -/
theorem gather_map {f : τ → List α} {g : τ → τ} (hg : ∀ t, f (g t) = f t) :
    (p.map g).gather f = p.gather f := by
  simp only [gather, Pool.map, List.flatMap_map, hg]

/-- A step that does not change what its thread contributes changes nothing. -/
theorem gather_set_of_eq {f : τ → List α} (ht : p.threads[i]? = some t) (h : f t' = f t) :
    (p.set i s t').gather f = p.gather f := by
  obtain ⟨shared, threads⟩ := p
  simp only [gather, Pool.set] at ht ⊢
  induction threads generalizing i with
  | nil => cases ht
  | cons u us ih =>
    cases i with
    | zero =>
      cases ht
      rw [List.set_cons_zero, List.flatMap_cons, List.flatMap_cons, h]
    | succ i =>
      rw [List.set_cons_succ, List.flatMap_cons, List.flatMap_cons, ih ht]

/-- Where the other threads contribute nothing, one thread's contribution is all. -/
theorem gather_of_alone {f : τ → List α} (ht : p.threads[i]? = some t)
    (h : ∀ j u, j ≠ i → p.threads[j]? = some u → f u = []) : p.gather f = f t := by
  obtain ⟨shared, threads⟩ := p
  simp only [gather] at ht h ⊢
  induction threads generalizing i with
  | nil => cases ht
  | cons u us ih =>
    cases i with
    | zero =>
      cases ht
      have hrest : us.flatMap f = [] := by
        rw [List.flatMap_eq_nil_iff]
        intro v hv
        obtain ⟨j, hj⟩ := List.mem_iff_getElem?.1 hv
        exact h (j + 1) v (Nat.succ_ne_zero j) hj
      rw [List.flatMap_cons, hrest, List.append_nil]
    | succ i =>
      have hfirst : f u = [] := h 0 u (Nat.succ_ne_zero i).symm rfl
      rw [List.flatMap_cons, hfirst, List.nil_append]
      exact ih ht fun j v hj hv => h (j + 1) v (by omega) hv

end Pool
