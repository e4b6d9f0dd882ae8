import Mathlib

/-!
# Locks by name

Threads that lock a name. There is a table of lock objects by name, which is filled as it is needed:
a thread looks its name up, makes a new object where there is none, offers it to the table, which
keeps the object that it has, and then waits for the monitor of whatever object the table has.

Each of these is a step of its own, so two threads may both make an object for a name. `Inv` holds
all the same: a thread waits for, or holds, the object that the table has for its name, and a
monitor knows its owner. It is kept by every step (`Inv.step`), and with it two threads that hold
the lock of one name are one thread (`Inv.exclusive`). A thread is only ever stopped by a monitor
that another thread owns (`step_or_waits`), and that thread holds it (`Accounted`).
-/

/-- Where a thread is with the lock of its name. -/
inductive LockPhase
  /-- It has not looked the name up. -/
  | lookUp
  /-- There was no object for the name. -/
  | create
  /-- It has made an object. -/
  | offer (lock : ℕ)
  /-- It waits for the monitor of an object. -/
  | wait (lock : ℕ)
  | hold (lock : ℕ)
  | done
  deriving DecidableEq, Repr

/-- The steps that a thread has to take at most to hold the lock. -/
def LockPhase.toCome : LockPhase → ℕ
  | .lookUp => 4
  | .create => 3
  | .offer _ => 2
  | .wait _ => 1
  | .hold _ | .done => 0

/-- The lock objects by name, the owners of their monitors, and the number of objects made. -/
structure LockTable (G T : Type) where
  locks : G → Option ℕ := fun _ => none
  owner : ℕ → Option T := fun _ => none
  created : ℕ := 0

namespace LockTable

variable {G T : Type}

/-- The next step of a thread on its way to the lock of a name, through it and out of it. -/
def step [DecidableEq G] (k : LockTable G T) (t : T) (name : G) : LockPhase → Option (LockTable G T × LockPhase)
  | .lookUp => some (k, ((k.locks name).map .wait).getD .create)
  | .create => some ({ k with created := k.created + 1 }, .offer k.created)
  | .offer new => match k.locks name with
    | some lock => some (k, .wait lock)
    | none => some ({ k with locks := Function.update k.locks name (some new) }, .wait new)
  | .wait lock => match k.owner lock with
    | some _ => none
    | none => some ({ k with owner := Function.update k.owner lock (some t) }, .hold lock)
  | .hold lock => some ({ k with owner := Function.update k.owner lock none }, .done)
  | .done => none

/-- A thread that waits for a monitor or holds one has the object of its name, and a monitor that is
held is owned by its holder. -/
structure Inv (name : T → G) (k : LockTable G T) (phase : T → LockPhase) : Prop where
  wait : ∀ t lock, phase t = .wait lock → k.locks (name t) = some lock
  hold : ∀ t lock, phase t = .hold lock → k.locks (name t) = some lock ∧ k.owner lock = some t

variable {name : T → G} {k k' : LockTable G T} {phase phase' : T → LockPhase}

/-- Before any thread has looked its name up. -/
theorem Inv.start : Inv name ({} : LockTable G T) fun _ => .lookUp :=
  ⟨fun _ _ h => (nomatch h), fun _ _ h => (nomatch h)⟩

/-- At most one thread holds the lock of a name. -/
theorem Inv.exclusive (h : Inv name k phase) {t t' : T} {lock lock' : ℕ} (ht : phase t = .hold lock)
    (ht' : phase t' = .hold lock') (hname : name t = name t') : t = t' := by
  obtain ⟨hlock, howner⟩ := h.hold t lock ht
  obtain ⟨hlock', howner'⟩ := h.hold t' lock' ht'
  rw [hname, hlock', Option.some.injEq] at hlock
  subst hlock
  rw [howner', Option.some.injEq] at howner
  exact howner.symm

section Step

variable [DecidableEq G] {t : T} {p p' : LockPhase}

/-- The table keeps the object of a name. -/
theorem step_locks {g g' : G} {lock : ℕ} (hs : k.step t g p = some (k', p'))
    (h : k.locks g' = some lock) : k'.locks g' = some lock := by
  unfold step at hs
  cases p with
  | lookUp | create | hold => cases hs; exact h
  | done => cases hs
  | offer new =>
    cases hg : k.locks g with
    | some l => rw [hg] at hs; cases hs; exact h
    | none =>
      rw [hg] at hs
      cases hs
      have hne : g' ≠ g := by
        rintro rfl
        rw [hg] at h
        cases h
      simp only [Function.update_of_ne hne, h]
  | wait lock =>
    cases ho : k.owner lock with
    | some _ => simp only [ho, reduceCtorEq] at hs
    | none => simp only [ho, Option.some.injEq, Prod.mk.injEq] at hs; rw [← hs.1]; exact h

/-- A step takes a monitor that nobody owns, or gives up the one that the thread holds; it touches
no other. -/
theorem step_owner {g : G} (hs : k.step t g p = some (k', p')) {lock : ℕ} {t' : T}
    (ho : k.owner lock = some t') (hp : p ≠ .hold lock) : k'.owner lock = some t' := by
  unfold step at hs
  cases p with
  | lookUp | create => cases hs; exact ho
  | done => cases hs
  | offer new =>
    cases hg : k.locks g with
    | some l => rw [hg] at hs; cases hs; exact ho
    | none => rw [hg] at hs; cases hs; exact ho
  | wait lock' =>
    cases ho' : k.owner lock' with
    | some _ => simp only [ho', reduceCtorEq] at hs
    | none =>
      simp only [ho', Option.some.injEq, Prod.mk.injEq] at hs
      have hne : lock ≠ lock' := by
        rintro rfl
        rw [ho] at ho'
        cases ho'
      rw [← hs.1]
      simp only [Function.update_of_ne hne, ho]
  | hold lock' =>
    cases hs
    have hne : lock ≠ lock' := fun h => hp (by rw [h])
    simp only [Function.update_of_ne hne, ho]

/-- A thread comes to wait for the object that the table then has for its name. -/
theorem step_wait {g : G} {lock : ℕ} (hs : k.step t g p = some (k', .wait lock)) :
    k'.locks g = some lock := by
  unfold step at hs
  cases p with
  | create | hold | done => cases hs
  | lookUp =>
    cases hg : k.locks g with
    | none => rw [hg] at hs; cases hs
    | some l => rw [hg] at hs; cases hs; exact hg
  | offer new =>
    cases hg : k.locks g with
    | some l => rw [hg] at hs; cases hs; exact hg
    | none => rw [hg] at hs; cases hs; exact Function.update_self ..
  | wait lock' => cases ho : k.owner lock' <;> simp [ho] at hs

/-- A thread comes to hold the monitor for which it has waited. -/
theorem step_hold {g : G} {lock : ℕ} (hs : k.step t g p = some (k', .hold lock)) :
    p = .wait lock ∧ k'.owner lock = some t := by
  unfold step at hs
  cases p with
  | create | hold | done => cases hs
  | lookUp => cases hg : k.locks g <;> simp [hg] at hs
  | offer new => cases hg : k.locks g <;> simp [hg] at hs
  | wait lock' =>
    cases ho : k.owner lock' with
    | some _ => simp only [ho, reduceCtorEq] at hs
    | none =>
      simp only [ho, Option.some.injEq, Prod.mk.injEq, LockPhase.hold.injEq] at hs
      obtain ⟨hk, rfl⟩ := hs
      rw [← hk]
      exact ⟨rfl, Function.update_self ..⟩

/-- A step of one thread keeps the invariant, whatever the names of the others. -/
theorem Inv.step (h : Inv name k phase) (hs : k.step t (name t) (phase t) = some (k', phase' t))
    (hothers : ∀ t' ≠ t, phase' t' = phase t') : Inv name k' phase' := by
  refine ⟨fun t' lock ht' => ?_, fun t' lock ht' => ?_⟩
  · by_cases hne : t' = t
    · subst hne
      rw [ht'] at hs
      exact step_wait hs
    · exact step_locks hs (h.wait t' lock (hothers t' hne ▸ ht'))
  · by_cases hne : t' = t
    · subst hne
      rw [ht'] at hs
      obtain ⟨hwait, howner⟩ := step_hold hs
      exact ⟨step_locks hs (h.wait t' lock hwait), howner⟩
    · obtain ⟨hlock, howner⟩ := h.hold t' lock (hothers t' hne ▸ ht')
      refine ⟨step_locks hs hlock, step_owner hs howner fun hheld => hne ?_⟩
      -- Were it the monitor that the thread gives up, it would have two owners.
      have howner' : k.owner lock = some t := (h.hold t lock hheld).2
      rw [howner, Option.some.injEq] at howner'
      exact howner'

/-! ## What a thread waits for -/

/-- The owner of a monitor holds it. -/
def Accounted (k : LockTable G T) (phase : T → LockPhase) : Prop :=
  ∀ lock t, k.owner lock = some t → phase t = .hold lock

/-- What a step does to the owners: it leaves them, takes a monitor that nobody owns, or gives up the
one that the thread holds. -/
theorem step_owners {g : G} (hs : k.step t g p = some (k', p')) :
    k'.owner = k.owner ∧ (∀ lock, p ≠ .hold lock) ∨
      (∃ lock, p' = .hold lock ∧ k'.owner = Function.update k.owner lock (some t) ∧
        ∀ lock, p ≠ .hold lock) ∨
      ∃ lock, p = .hold lock ∧ k'.owner = Function.update k.owner lock none := by
  unfold step at hs
  cases p with
  | lookUp | create =>
    cases hs
    exact .inl ⟨rfl, fun _ h => by cases h⟩
  | done => cases hs
  | offer new =>
    cases hg : k.locks g with
    | some l =>
      rw [hg] at hs
      cases hs
      exact .inl ⟨rfl, fun _ h => by cases h⟩
    | none =>
      rw [hg] at hs
      cases hs
      exact .inl ⟨rfl, fun _ h => by cases h⟩
  | wait lock =>
    cases ho : k.owner lock with
    | some _ => simp only [ho, reduceCtorEq] at hs
    | none =>
      simp only [ho, Option.some.injEq, Prod.mk.injEq] at hs
      obtain ⟨rfl, rfl⟩ := hs
      exact .inr (.inl ⟨lock, rfl, rfl, fun _ h => by cases h⟩)
  | hold lock =>
    cases hs
    exact .inr (.inr ⟨lock, rfl, rfl⟩)

/-- A step of one thread keeps the owners accounted for. -/
theorem Accounted.step {g : G} (h : k.Accounted phase)
    (hs : k.step t g (phase t) = some (k', phase' t))
    (hothers : ∀ t' ≠ t, phase' t' = phase t') : k'.Accounted phase' := by
  intro lock t' ho
  rcases step_owners hs with ⟨howner, hnot⟩ | ⟨lock', hhold, howner, hnot⟩ | ⟨lock', hheld, howner⟩
  · rw [howner] at ho
    have hne : t' ≠ t := fun hne => hnot lock (hne ▸ h lock t' ho)
    exact (hothers t' hne).trans (h lock t' ho)
  · rw [howner] at ho
    by_cases hl : lock = lock'
    · subst hl
      rw [Function.update_self, Option.some.injEq] at ho
      exact ho ▸ hhold
    · rw [Function.update_of_ne hl] at ho
      have hne : t' ≠ t := fun hne => hnot lock (hne ▸ h lock t' ho)
      exact (hothers t' hne).trans (h lock t' ho)
  · rw [howner] at ho
    have hl : lock ≠ lock' := by
      rintro rfl
      rw [Function.update_self] at ho
      cases ho
    rw [Function.update_of_ne hl] at ho
    have hne : t' ≠ t := by
      rintro rfl
      exact hl (LockPhase.hold.inj ((h lock t' ho).symm.trans hheld))
    exact (hothers t' hne).trans (h lock t' ho)

/-- A thread that is not through can take a step, or waits for a monitor that a thread owns. -/
theorem step_or_waits (k : LockTable G T) (t : T) (g : G) (hp : p ≠ .done) :
    (∃ k' p', k.step t g p = some (k', p')) ∨
      ∃ lock t', p = .wait lock ∧ k.owner lock = some t' := by
  cases p with
  | lookUp | create | hold => exact .inl ⟨_, _, rfl⟩
  | offer new => exact .inl (by cases hg : k.locks g <;> simp [step, hg])
  | wait lock =>
    cases ho : k.owner lock with
    | none => exact .inl (by simp [step, ho])
    | some t' => exact .inr ⟨lock, t', rfl, ho⟩
  | done => exact absurd rfl hp

/-- A step of a thread that does not hold its lock takes it nearer to the lock. -/
theorem step_toCome {g : G} (hs : k.step t g p = some (k', p')) (hp : ∀ lock, p ≠ .hold lock) :
    p'.toCome < p.toCome ∧ p' ≠ .done := by
  unfold step at hs
  cases p with
  | lookUp => cases hg : k.locks g <;> simp [hg] at hs <;> simp [← hs.2, LockPhase.toCome]
  | create =>
    cases hs
    exact ⟨Nat.lt_succ_self _, by simp⟩
  | offer new => cases hg : k.locks g <;> simp [hg] at hs <;> simp [← hs.2, LockPhase.toCome]
  | wait lock =>
    cases ho : k.owner lock with
    | some _ => simp only [ho, reduceCtorEq] at hs
    | none =>
      simp only [ho, Option.some.injEq, Prod.mk.injEq] at hs
      obtain ⟨-, rfl⟩ := hs
      exact ⟨Nat.zero_lt_one, by simp⟩
  | hold lock => exact absurd rfl (hp lock)
  | done => cases hs

end Step

end LockTable
