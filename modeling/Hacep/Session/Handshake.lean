import Hacep.Lib.Lts

/-!
# The handshake between a snapshot and those who wait for it

`createSnapshot` and `waitForSnapshotToComplete` of one session, called by any number of threads any
number of times, and the tasks that the executor runs. A snapshot is claimed by setting the flag
`saving`; only then is there a new latch for it. Its task clears the flag and then counts down the
latch that it finds in the field. Every access to the flag, to the field and to a latch is a step.

The flag keeps the claims apart: a claim that has not cleared the flag is the last one. The latches
it does not keep apart. A waiter may read the field before the claim that it saw has made its latch,
and a task may read it after the next claim has; and where `execute` throws, nobody clears the flag.
`handshake_sound` is for the runs without these three steps (`InTurn`): what has returned has waited
for every snapshot claimed before, what is blocked is on a latch that will be counted down, and the
flag is that of a snapshot that will clear it. The invariant is that the latch of claim `k` is the
one made as number `k + 1`.
-/

namespace Hacep

/-- Where a claimed snapshot is. -/
inductive SnapshotPc
  | unclaimed
  /-- The thread has set the flag, and has still to make the latch. -/
  | claimed
  /-- The latch is made, and the thread has still to hand the task to the executor. -/
  | latched
  /-- The task is in the executor or at its work. -/
  | working
  /-- `saving.set(false)`, after the work. -/
  | release
  /-- The read of the field `latch`. -/
  | readLatch
  /-- `countDown()` on the latch read. -/
  | countDown (latch : ℕ)
  | done
  /-- `executor.execute` has thrown. -/
  | refused
  deriving DecidableEq, Repr

/-- Where a thread is. -/
inductive CallerPc
  | idle
  /-- `saving.compareAndSet(false, true)`. -/
  | compareAndSet
  /-- `latch = new CountDownLatch(1)`, for a claim. -/
  | newLatch (claim : ℕ)
  /-- `executor.execute(…)`. -/
  | execute (claim : ℕ)
  /-- `saving.get()`; the number is that of the claims before the call. -/
  | get (before : ℕ)
  /-- The read of the field `latch`. -/
  | readLatch (before : ℕ)
  /-- `await()` on the latch read. -/
  | await (before latch : ℕ)
  /-- `waitForSnapshotToComplete` has returned. -/
  | returned (before : ℕ)
  deriving DecidableEq, Repr

/-- The flag, the field and the latches of a session, and the snapshots claimed. -/
structure Snapshots where
  saving : Bool := false
  /-- The latch in the field. -/
  latch : ℕ := 0
  /-- How many latches there are; the first is that of the field's initial value. -/
  latches : ℕ := 1
  count : ℕ → ℕ := fun _ => 0
  /-- How many snapshots have been claimed. -/
  claims : ℕ := 0
  snapshot : ℕ → SnapshotPc := fun _ => .unclaimed

/-- The snapshots, and the threads. -/
structure Handshake (T : Type) where
  snapshots : Snapshots := {}
  caller : T → CallerPc := fun _ => .idle

/-- The work of the snapshot is done. -/
def SnapshotPc.finished : SnapshotPc → Bool
  | .release | .readLatch | .countDown _ | .done => true
  | _ => false

/-- The snapshot has set the flag and will clear it. -/
def SnapshotPc.holdsFlag : SnapshotPc → Bool
  | .claimed | .latched | .working | .release => true
  | _ => false

/-- The snapshot has cleared the flag. -/
def SnapshotPc.released : SnapshotPc → Bool
  | .readLatch | .countDown _ | .done => true
  | _ => false

/-- The thread has claimed a snapshot and has not handed its task over. -/
def CallerPc.claim : CallerPc → Option ℕ
  | .newLatch k | .execute k => some k
  | _ => none

/-- The thread can begin a call. -/
def CallerPc.resting : CallerPc → Bool
  | .idle | .returned _ => true
  | _ => false

namespace Snapshots

/-- The snapshot goes on. -/
def moveTo (s : Snapshots) (k : ℕ) (pc : SnapshotPc) : Snapshots :=
  { s with snapshot := Function.update s.snapshot k pc }

/-- A snapshot sets the flag. -/
def claim (s : Snapshots) : Snapshots :=
  { s.moveTo s.claims .claimed with saving := true, claims := s.claims + 1 }

/-- `latch = new CountDownLatch(1)`. -/
def newLatch (s : Snapshots) (k : ℕ) : Snapshots :=
  { s.moveTo k .latched with
    latch := s.latches
    latches := s.latches + 1
    count := Function.update s.count s.latches 1 }

/-- The statement that the task of a snapshot is at. -/
def task (s : Snapshots) (k : ℕ) : Option Snapshots :=
  match s.snapshot k with
  | .working => some (s.moveTo k .release)
  | .release => some { s.moveTo k .readLatch with saving := false }
  | .readLatch => some (s.moveTo k (.countDown s.latch))
  | .countDown latch => some { s.moveTo k .done with
      count := Function.update s.count latch (s.count latch - 1) }
  | .unclaimed | .claimed | .latched | .done | .refused => none

/-- The task of the snapshot will count down the latch: it has read it, or it has yet to read the
field, where the latch is. -/
def WillCountDown (s : Snapshots) (k latch : ℕ) : Prop :=
  match s.snapshot k with
  | .latched | .working | .release | .readLatch => s.latch = latch
  | .countDown latch' => latch' = latch
  | .unclaimed | .claimed | .done | .refused => False

end Snapshots

namespace Handshake

variable {T : Type}

/-- What happens. -/
inductive Action (T : Type)
  | createSnapshot (t : T)
  | waitForSnapshotToComplete (t : T)
  | step (t : T)
  /-- `executor.execute` throws. -/
  | refuse (t : T)
  /-- The thread is interrupted in `await()`. -/
  | interrupt (t : T)
  /-- A step of the task of a snapshot. -/
  | task (claim : ℕ)
  deriving DecidableEq, Repr

section Lts

variable [DecidableEq T]

/-- The thread goes on. -/
def goTo (s : Handshake T) (t : T) (pc : CallerPc) : Handshake T :=
  { s with caller := Function.update s.caller t pc }

/-- The statement that a thread is at. -/
def stepCaller (s : Handshake T) (t : T) : Option (Handshake T) :=
  match s.caller t with
  | .compareAndSet =>
    if s.snapshots.saving then some (s.goTo t .idle)
    else some { s.goTo t (.newLatch s.snapshots.claims) with snapshots := s.snapshots.claim }
  | .newLatch k => some { s.goTo t (.execute k) with snapshots := s.snapshots.newLatch k }
  | .execute k => some { s.goTo t .idle with snapshots := s.snapshots.moveTo k .working }
  | .get before =>
    if s.snapshots.saving then some (s.goTo t (.readLatch before))
    else some (s.goTo t (.returned before))
  | .readLatch before => some (s.goTo t (.await before s.snapshots.latch))
  | .await before latch =>
    if s.snapshots.count latch = 0 then some (s.goTo t (.returned before)) else none
  | .idle | .returned _ => none

/-- The handshake, one access at a time. -/
def lts : Lts (Handshake T) (Action T) where
  step s
    | .createSnapshot t =>
      if (s.caller t).resting then some (s.goTo t .compareAndSet) else none
    | .waitForSnapshotToComplete t =>
      if (s.caller t).resting then some (s.goTo t (.get s.snapshots.claims)) else none
    | .step t => s.stepCaller t
    | .refuse t =>
      match s.caller t with
      | .execute k => some { s.goTo t .idle with snapshots := s.snapshots.moveTo k .refused }
      | _ => none
    | .interrupt t =>
      match s.caller t with
      | .await _ _ => some (s.goTo t .idle)
      | _ => none
    | .task k => (s.snapshots.task k).map fun snapshots => { s with snapshots := snapshots }

end Lts

/-- What the handshake is for. -/
structure Sound (s : Handshake T) : Prop where
  /-- Where a wait has returned, the snapshots claimed before it have done their work. -/
  returned : ∀ t before, s.caller t = .returned before →
    ∀ k < before, (s.snapshots.snapshot k).finished = true
  /-- A thread is blocked on a latch that the task of a snapshot will count down. -/
  blocked : ∀ t before latch, s.caller t = .await before latch → s.snapshots.count latch ≠ 0 →
    ∃ k < s.snapshots.claims, s.snapshots.WillCountDown k latch
  /-- Where the flag is set, a snapshot has set it and will clear it. -/
  flag : s.snapshots.saving = true →
    ∃ k < s.snapshots.claims, (s.snapshots.snapshot k).holdsFlag = true

/-- A waiter does not read the field while the latch of a snapshot claimed before the wait is still
to be made, no latch is made while a task has cleared the flag and not read the field, and `execute`
does not throw. -/
def InTurn (s : Handshake T) : Action T → Bool
  | .step t =>
    match s.caller t with
    | .readLatch before => decide (∀ k < before, s.snapshots.snapshot k ≠ .claimed)
    | .newLatch _ => decide (∀ k < s.snapshots.claims, s.snapshots.snapshot k ≠ .readLatch)
    | _ => true
  | .refuse _ => false
  | _ => true

end Handshake

/-! ## The claims and their latches -/

namespace Snapshots

/-- The claims and their latches. -/
structure Claims (s : Snapshots) : Prop where
  /-- The snapshots are claimed in order. -/
  unclaimed : ∀ k, s.claims ≤ k → s.snapshot k = .unclaimed
  /-- None has been refused. -/
  claimed : ∀ k < s.claims, (s.snapshot k).holdsFlag = true ∨ (s.snapshot k).released = true
  /-- Only the last one holds the flag. -/
  holds : ∀ k, (s.snapshot k).holdsFlag = true → k + 1 = s.claims ∧ s.saving = true
  /-- Where the flag is set, one holds it. -/
  flag : s.saving = true → ∃ k, (s.snapshot k).holdsFlag = true
  /-- The field has the latch that was made last. -/
  field : s.latch + 1 = s.latches
  /-- There is a latch for each claim, but for one that has still to make it. -/
  latches : s.latches = s.claims ∧ (∃ k, s.snapshot k = .claimed) ∨
    s.latches = s.claims + 1 ∧ ∀ k, s.snapshot k ≠ .claimed
  /-- The latch of the field's initial value is down. -/
  first : s.count 0 = 0
  /-- That of a claim is down when its task is done. -/
  count : ∀ k, k + 1 < s.latches → s.count (k + 1) = if s.snapshot k = .done then 0 else 1
  /-- A task has read the latch of its claim. -/
  read : ∀ k l, s.snapshot k = .countDown l → l = k + 1
  /-- A task that is about to read finds it. -/
  finds : ∀ k, s.snapshot k = .readLatch → s.latch = k + 1

variable {s s' : Snapshots} {j k : ℕ} {pc : SnapshotPc}

@[simp]
theorem moveTo_self : (s.moveTo k pc).snapshot k = pc := Function.update_self ..

theorem moveTo_of_ne (h : j ≠ k) : (s.moveTo k pc).snapshot j = s.snapshot j :=
  Function.update_of_ne h ..

/-- A snapshot that is not unclaimed has been claimed. -/
theorem Claims.lt (h : s.Claims) (hk : s.snapshot k ≠ .unclaimed) : k < s.claims := by
  by_contra hge
  exact hk (h.unclaimed k (Nat.le_of_not_lt hge))

/-- At most one snapshot holds the flag. -/
theorem Claims.eq_of_holds (h : s.Claims) (hj : (s.snapshot j).holdsFlag = true)
    (hk : (s.snapshot k).holdsFlag = true) : j = k := by
  have hjlast : j + 1 = s.claims := (h.holds j hj).1
  have hklast : k + 1 = s.claims := (h.holds k hk).1
  omega

/-- Where the snapshot that holds the flag has made its latch, every claim has one. -/
theorem Claims.latches_of_holds (h : s.Claims) (hk : (s.snapshot k).holdsFlag = true)
    (hmade : s.snapshot k ≠ .claimed) :
    s.latches = s.claims + 1 ∧ ∀ j, s.snapshot j ≠ .claimed := by
  rcases h.latches with ⟨-, j, hj⟩ | hlatches
  · have hjk : j = k := h.eq_of_holds (by rw [hj]; rfl) hk
    rw [hjk] at hj
    exact absurd hj hmade
  · exact hlatches

/-- A snapshot that has been claimed and has not done its work holds the flag. -/
theorem Claims.holds_of_not_finished (h : s.Claims) (hk : k < s.claims)
    (hnot : (s.snapshot k).finished = false) : (s.snapshot k).holdsFlag = true := by
  rcases h.claimed k hk with hholds | hreleased
  · exact hholds
  · cases hpc : s.snapshot k <;> rw [hpc] at hnot hreleased <;> cases hnot <;> cases hreleased

/-- Where the flag is clear, a snapshot is claimed, and its latch is to come. -/
theorem Claims.claim (h : s.Claims) (hfree : s.saving = false) : s.claim.Claims := by
  have hself : s.claim.snapshot s.claims = .claimed := moveTo_self
  have hother : ∀ k, k ≠ s.claims → s.claim.snapshot k = s.snapshot k := fun k hk => moveTo_of_ne hk
  -- The flag is clear: nobody holds it, and every claim so far has its latch.
  have hnone : ∀ k, (s.snapshot k).holdsFlag ≠ true := fun k hk => by
    have hsaving := (h.holds k hk).2
    rw [hfree] at hsaving
    cases hsaving
  have hlatches : s.latches = s.claims + 1 := by
    rcases h.latches with ⟨-, k, hk⟩ | ⟨hlatches, -⟩
    · exact absurd (by rw [hk]; rfl) (hnone k)
    · exact hlatches
  constructor
  case unclaimed =>
    intro k hk
    replace hk : s.claims + 1 ≤ k := hk
    rw [hother k (by omega)]
    exact h.unclaimed k (by omega)
  case claimed =>
    intro k hk
    replace hk : k < s.claims + 1 := hk
    by_cases hkc : k = s.claims
    · rw [hkc, hself]
      exact .inl rfl
    · rw [hother k hkc]
      exact h.claimed k (by omega)
  case holds =>
    intro k hk
    by_cases hkc : k = s.claims
    · rw [hkc]
      exact ⟨rfl, rfl⟩
    · rw [hother k hkc] at hk
      exact absurd hk (hnone k)
  case flag => exact fun _ => ⟨s.claims, by rw [hself]; rfl⟩
  case field => exact h.field
  case latches => exact .inl ⟨hlatches, s.claims, hself⟩
  case first => exact h.first
  case count =>
    intro k hk
    replace hk : k + 1 < s.latches := hk
    rw [hother k (by omega)]
    exact h.count k hk
  case read =>
    intro k l hk
    by_cases hkc : k = s.claims
    · rw [hkc, hself] at hk
      cases hk
    · rw [hother k hkc] at hk
      exact h.read k l hk
  case finds =>
    intro k hk
    by_cases hkc : k = s.claims
    · rw [hkc, hself] at hk
      cases hk
    · rw [hother k hkc] at hk
      exact h.finds k hk

/-- The snapshot that holds the flag goes on and still holds it. -/
theorem Claims.moveTo (h : s.Claims) (hk : (s.snapshot k).holdsFlag = true)
    (hmade : s.snapshot k ≠ .claimed) (hpc : pc.holdsFlag = true) (hpcmade : pc ≠ .claimed) :
    (s.moveTo k pc).Claims := by
  obtain ⟨hlast, hsaving⟩ := h.holds k hk
  obtain ⟨hlatches, hnone⟩ := h.latches_of_holds hk hmade
  -- A snapshot that holds the flag is not at any of its task's last statements.
  have hnot : ∀ pc : SnapshotPc, pc.holdsFlag = true → pc ≠ .readLatch ∧ (∀ l, pc ≠ .countDown l) ∧
      pc ≠ .done := by
    rintro pc hpc
    refine ⟨?_, fun l => ?_, ?_⟩ <;> rintro rfl <;> cases hpc
  constructor
  case unclaimed =>
    intro j hj
    replace hj : s.claims ≤ j := hj
    rw [moveTo_of_ne (by omega)]
    exact h.unclaimed j hj
  case claimed =>
    intro j hj
    by_cases hjk : j = k
    · rw [hjk, moveTo_self]
      exact .inl hpc
    · rw [moveTo_of_ne hjk]
      exact h.claimed j hj
  case holds =>
    intro j hj
    by_cases hjk : j = k
    · rw [hjk]
      exact ⟨hlast, hsaving⟩
    · rw [moveTo_of_ne hjk] at hj
      exact h.holds j hj
  case flag =>
    intro _
    refine ⟨k, ?_⟩
    rw [moveTo_self]
    exact hpc
  case field => exact h.field
  case latches =>
    refine .inr ⟨hlatches, fun j => ?_⟩
    by_cases hjk : j = k
    · rw [hjk, moveTo_self]
      exact hpcmade
    · rw [moveTo_of_ne hjk]
      exact hnone j
  case first => exact h.first
  case count =>
    intro j hj
    have hcount := h.count j hj
    by_cases hjk : j = k
    · rw [hjk, if_neg (hnot _ hk).2.2] at hcount
      rw [hjk, moveTo_self, if_neg (hnot _ hpc).2.2]
      exact hcount
    · rw [moveTo_of_ne hjk]
      exact hcount
  case read =>
    intro j l hj
    by_cases hjk : j = k
    · rw [hjk, moveTo_self] at hj
      exact absurd hj ((hnot _ hpc).2.1 l)
    · rw [moveTo_of_ne hjk] at hj
      exact h.read j l hj
  case finds =>
    intro j hj
    by_cases hjk : j = k
    · rw [hjk, moveTo_self] at hj
      exact absurd hj (hnot _ hpc).1
    · rw [moveTo_of_ne hjk] at hj
      exact h.finds j hj

/-- The snapshot that has been claimed makes its latch, while no task is about to read the field. -/
theorem Claims.newLatch (h : s.Claims) (hk : s.snapshot k = .claimed)
    (hreads : ∀ j < s.claims, s.snapshot j ≠ .readLatch) : (s.newLatch k).Claims := by
  have hself : (s.newLatch k).snapshot k = .latched := moveTo_self
  have hother : ∀ j, j ≠ k → (s.newLatch k).snapshot j = s.snapshot j := fun j hj => moveTo_of_ne hj
  have hholds : (s.snapshot k).holdsFlag = true := by rw [hk]; rfl
  obtain ⟨hlast, hsaving⟩ := h.holds k hholds
  have hlatches : s.latches = s.claims := by
    rcases h.latches with ⟨hlatches, -⟩ | ⟨-, hnone⟩
    · exact hlatches
    · exact absurd hk (hnone k)
  constructor
  case unclaimed =>
    intro j hj
    replace hj : s.claims ≤ j := hj
    rw [hother j (by omega)]
    exact h.unclaimed j hj
  case claimed =>
    intro j hj
    by_cases hjk : j = k
    · rw [hjk, hself]
      exact .inl rfl
    · rw [hother j hjk]
      exact h.claimed j hj
  case holds =>
    intro j hj
    by_cases hjk : j = k
    · rw [hjk]
      exact ⟨hlast, hsaving⟩
    · rw [hother j hjk] at hj
      exact h.holds j hj
  case flag => exact fun _ => ⟨k, by rw [hself]; rfl⟩
  case field => rfl
  case latches =>
    refine .inr ⟨congrArg (· + 1) hlatches, fun j hj => ?_⟩
    -- The claim is the only one that had still to make its latch.
    by_cases hjk : j = k
    · rw [hjk, hself] at hj
      cases hj
    · rw [hother j hjk] at hj
      exact hjk (h.eq_of_holds (by rw [hj]; rfl) hholds)
  case first =>
    have hpos : 0 ≠ s.latches := by omega
    exact (Function.update_of_ne hpos ..).trans h.first
  case count =>
    intro j hj
    -- The new latch is the one of this claim; the others are older.
    show Function.update s.count s.latches 1 (j + 1) = _
    by_cases hjk : j = k
    · have hown : j + 1 = s.latches := by omega
      rw [hown, Function.update_self, hjk, hself]
      rfl
    · have hnot : j + 1 ≠ s.latches := by omega
      replace hj : j + 1 < s.latches + 1 := hj
      rw [Function.update_of_ne hnot, hother j hjk]
      exact h.count j (by omega)
  case read =>
    intro j l hj
    by_cases hjk : j = k
    · rw [hjk, hself] at hj
      cases hj
    · rw [hother j hjk] at hj
      exact h.read j l hj
  case finds =>
    intro j hj
    by_cases hjk : j = k
    · rw [hjk, hself] at hj
      cases hj
    · rw [hother j hjk] at hj
      have hlt : j < s.claims := h.lt (by rw [hj]; simp)
      exact absurd hj (hreads j hlt)

/-- A snapshot whose latch is made goes on without the flag: what it must see to is the flag and the
latches. -/
theorem Claims.moveOn (h : s.Claims) {saving : Bool} {count : ℕ → ℕ} (hk : k < s.claims)
    (hmade : s.snapshot k ≠ .claimed) (hpc : pc.released = true)
    (hholds : ∀ j, j ≠ k → (s.snapshot j).holdsFlag = true → saving = true)
    (hflag : saving = true → ∃ j, j ≠ k ∧ (s.snapshot j).holdsFlag = true)
    (hfirst : count 0 = 0)
    (hcount : ∀ j, j + 1 < s.latches →
      count (j + 1) = if (if j = k then pc else s.snapshot j) = .done then 0 else 1)
    (hread : ∀ l, pc = .countDown l → l = k + 1) (hfinds : pc = .readLatch → s.latch = k + 1) :
    Claims { s.moveTo k pc with saving := saving, count := count } := by
  have hself : (s.moveTo k pc).snapshot k = pc := moveTo_self
  have hother : ∀ j, j ≠ k → (s.moveTo k pc).snapshot j = s.snapshot j := fun j hj => moveTo_of_ne hj
  -- The flag has been cleared for the snapshot, so it is another one's if it is set.
  have hnot : pc.holdsFlag = false := by
    cases pc with
    | readLatch | countDown | done => rfl
    | _ => cases hpc
  constructor
  case unclaimed =>
    intro j hj
    replace hj : s.claims ≤ j := hj
    exact (hother j (by omega)).trans (h.unclaimed j hj)
  case claimed =>
    intro j hj
    by_cases hjk : j = k
    · right
      simp only [hjk, hself, hpc]
    · simp only [hother j hjk]
      exact h.claimed j hj
  case holds =>
    intro j hj
    by_cases hjk : j = k
    · simp only [hjk, hself, hnot, Bool.false_eq_true] at hj
    · simp only [hother j hjk] at hj
      exact ⟨(h.holds j hj).1, hholds j hjk hj⟩
  case flag =>
    intro hs
    obtain ⟨j, hjk, hj⟩ := hflag hs
    exact ⟨j, by simp only [hother j hjk, hj]⟩
  case field => exact h.field
  case latches =>
    rcases h.latches with ⟨hlatches, j, hj⟩ | ⟨hlatches, hnone⟩
    · have hjk : j ≠ k := by
        rintro rfl
        exact hmade hj
      exact .inl ⟨hlatches, j, (hother j hjk).trans hj⟩
    · refine .inr ⟨hlatches, fun j => ?_⟩
      by_cases hjk : j = k
      · simp only [hjk, hself]
        rintro rfl
        cases hpc
      · simp only [hother j hjk]
        exact hnone j
  case first => exact hfirst
  case count =>
    intro j hj
    have hj' := hcount j hj
    by_cases hjk : j = k
    · rw [if_pos hjk] at hj'
      simp only [hjk, hself]
      rw [hjk] at hj'
      exact hj'
    · rw [if_neg hjk] at hj'
      simp only [hother j hjk]
      exact hj'
  case read =>
    intro j l hj
    by_cases hjk : j = k
    · simp only [hjk, hself] at hj
      rw [hjk]
      exact hread l hj
    · simp only [hother j hjk] at hj
      exact h.read j l hj
  case finds =>
    intro j hj
    by_cases hjk : j = k
    · simp only [hjk, hself] at hj
      rw [hjk]
      exact hfinds hj
    · simp only [hother j hjk] at hj
      exact h.finds j hj

/-- A step of a task keeps the claims. -/
theorem Claims.task (h : s.Claims) (hs : s.task k = some s') : s'.Claims := by
  unfold Snapshots.task at hs
  have hk : k < s.claims := by
    refine h.lt fun hk => ?_
    rw [hk] at hs
    cases hs
  -- Where the snapshot has not ended, its latch is up; where it will not have, it stays up.
  have hup : ∀ pc : SnapshotPc, s.snapshot k ≠ .done → pc ≠ .done → ∀ j, j + 1 < s.latches →
      s.count (j + 1) = if (if j = k then pc else s.snapshot j) = .done then 0 else 1 := by
    intro pc hnot hpc j hj
    have hcount := h.count j hj
    by_cases hjk : j = k
    · rw [hjk, if_neg hnot] at hcount
      rw [if_pos hjk, if_neg hpc, hjk]
      exact hcount
    · rw [if_neg hjk]
      exact hcount
  cases hpc : s.snapshot k with
  | working =>
    rw [hpc] at hs
    cases hs
    exact h.moveTo (by rw [hpc]; rfl) (by rw [hpc]; simp) rfl (by simp)
  | release =>
    rw [hpc] at hs
    cases hs
    -- Nobody else holds the flag, and the field has the latch of this claim.
    have hholds : (s.snapshot k).holdsFlag = true := by rw [hpc]; rfl
    have hlast : k + 1 = s.claims := (h.holds k hholds).1
    have hlatches := (h.latches_of_holds hholds (by rw [hpc]; simp)).1
    have hfield := h.field
    refine h.moveOn hk (by rw [hpc]; simp) rfl (fun j hjk hj => ?_) nofun h.first
      (hup _ (by rw [hpc]; simp) (by simp)) nofun fun _ => ?_
    · exact absurd (h.eq_of_holds hj hholds) hjk
    · omega
  | readLatch =>
    rw [hpc] at hs
    cases hs
    -- If the flag is set, it is set for another snapshot.
    refine h.moveOn hk (by rw [hpc]; simp) rfl (fun j _ hj => (h.holds j hj).2) (fun hsaving => ?_)
      h.first (hup _ (by rw [hpc]; simp) (by simp)) (fun l hl => ?_) nofun
    · obtain ⟨j, hj⟩ := h.flag hsaving
      refine ⟨j, ?_, hj⟩
      rintro rfl
      rw [hpc] at hj
      cases hj
    · cases hl
      exact h.finds k hpc
  | countDown latch =>
    rw [hpc] at hs
    cases hs
    have hown : latch = k + 1 := h.read k latch hpc
    refine h.moveOn hk (by rw [hpc]; simp) rfl (fun j _ hj => (h.holds j hj).2) (fun hsaving => ?_)
      ?_ (fun j hj => ?_) nofun nofun
    · obtain ⟨j, hj⟩ := h.flag hsaving
      refine ⟨j, ?_, hj⟩
      rintro rfl
      rw [hpc] at hj
      cases hj
    · rw [hown, Function.update_of_ne (by omega)]
      exact h.first
    · have hcount := h.count j hj
      by_cases hjk : j = k
      · -- The latch was up, and is counted down to zero.
        rw [hjk, if_neg (by rw [hpc]; simp)] at hcount
        rw [if_pos hjk, if_pos rfl, hown, hjk, Function.update_self, hcount]
      · rw [if_neg hjk, hown, Function.update_of_ne (by omega)]
        exact hcount
  | _ =>
    rw [hpc] at hs
    cases hs

/-- A latch that is up is that of a claim, whose task has it to count down. -/
theorem Claims.willCountDown (h : s.Claims) {latch : ℕ} (hlatch : latch < s.latches)
    (hup : s.count latch ≠ 0) : ∃ k < s.claims, s.WillCountDown k latch := by
  obtain ⟨k, rfl⟩ : ∃ k, latch = k + 1 := by
    refine ⟨latch - 1, ?_⟩
    have hpos : latch ≠ 0 := by
      rintro rfl
      exact hup h.first
    omega
  have hk : k < s.claims := by
    rcases h.latches with ⟨hlatches, -⟩ | ⟨hlatches, -⟩ <;> omega
  refine ⟨k, hk, ?_⟩
  -- A task that has not cleared the flag is the last one, and its latch is in the field.
  have hholds : ∀ pc, s.snapshot k = pc → pc.holdsFlag = true → pc ≠ .claimed →
      s.latch = k + 1 := by
    rintro pc rfl hpc hmade
    have hfield : s.latch + 1 = s.latches := h.field
    have hlast : k + 1 = s.claims := (h.holds k hpc).1
    have hlatches : s.latches = s.claims + 1 := (h.latches_of_holds hpc hmade).1
    omega
  have hcount := h.count k hlatch
  have hknown := h.claimed k hk
  unfold WillCountDown
  cases hpc : s.snapshot k with
  | latched | working | release => exact hholds _ hpc rfl (by simp)
  | readLatch => exact h.finds k hpc
  | countDown latch => exact h.read k latch hpc
  | claimed =>
    -- Its latch is still to be made, so it is not below the number of latches.
    have hlast : k + 1 = s.claims := (h.holds k (by rw [hpc]; rfl)).1
    rcases h.latches with ⟨hlatches, -⟩ | ⟨-, hnone⟩
    · omega
    · exact absurd hpc (hnone k)
  | done =>
    rw [if_pos hpc] at hcount
    exact absurd hcount hup
  | unclaimed | refused =>
    rw [hpc] at hknown
    rcases hknown with hknown | hknown <;> cases hknown

end Snapshots

/-! ## The threads -/

namespace Handshake

variable {T : Type}

/-- What holds of a thread. -/
def CallerOk (s : Snapshots) : CallerPc → Prop
  | .newLatch k => s.snapshot k = .claimed
  | .execute k => s.snapshot k = .latched
  | .get before | .readLatch before => before ≤ s.claims
  | .await before latch => before ≤ s.claims ∧ latch < s.latches ∧
    ∀ k < before, (s.snapshot k).finished = false → latch = k + 1
  | .returned before => ∀ k < before, (s.snapshot k).finished = true
  | .idle | .compareAndSet => True

/-- The invariant. -/
structure Inv (s : Handshake T) : Prop where
  claims : s.snapshots.Claims
  callers : ∀ t, CallerOk s.snapshots (s.caller t)
  /-- A claim is one thread's. -/
  alone : ∀ t u k, (s.caller t).claim = some k → (s.caller u).claim = some k → t = u

/-- What only grows. -/
structure Advances (s s' : Snapshots) : Prop where
  claims : s.claims ≤ s'.claims
  latches : s.latches ≤ s'.latches
  finished : ∀ k, (s.snapshot k).finished = true → (s'.snapshot k).finished = true

section Invariant

variable {s s' : Handshake T} {ss : Snapshots} {t : T} {pc : CallerPc} {k : ℕ}

/-- What holds of a thread goes on to hold, if its claim is left alone. -/
theorem CallerOk.advance (h : CallerOk s.snapshots pc) (hs : Advances s.snapshots ss)
    (hclaim : ∀ k, pc.claim = some k → ss.snapshot k = s.snapshots.snapshot k) : CallerOk ss pc := by
  cases pc with
  | newLatch k | execute k => exact (hclaim k rfl).trans h
  | get before | readLatch before => exact Nat.le_trans h hs.claims
  | await before latch =>
    obtain ⟨hbefore, hlatch, hwaits⟩ := h
    refine ⟨Nat.le_trans hbefore hs.claims, Nat.lt_of_lt_of_le hlatch hs.latches,
      fun k hk hnot => hwaits k hk (Bool.eq_false_iff.2 fun hfinished => ?_)⟩
    rw [hs.finished k hfinished] at hnot
    cases hnot
  | returned before => exact fun k hk => hs.finished k (h k hk)
  | idle | compareAndSet => trivial

/-- A waiter that finds the flag clear may return: no snapshot is at its work. -/
theorem CallerOk.of_free (hclaims : ss.Claims) {before : ℕ} (hbefore : before ≤ ss.claims)
    (hfree : ss.saving = false) : CallerOk ss (.returned before) := by
  intro k hk
  by_contra hnot
  have hholds := hclaims.holds_of_not_finished (Nat.lt_of_lt_of_le hk hbefore)
    (Bool.eq_false_iff.2 hnot)
  have hsaving := (hclaims.holds k hholds).2
  rw [hfree] at hsaving
  cases hsaving

/-- A waiter reads the latch it needs, where none of the snapshots before it has still to make its
latch: one that has not done its work is the last one, and its latch is in the field. -/
theorem CallerOk.of_read (hclaims : ss.Claims) {before : ℕ} (hbefore : before ≤ ss.claims)
    (hmade : ∀ k < before, ss.snapshot k ≠ .claimed) : CallerOk ss (.await before ss.latch) := by
  have hfield : ss.latch + 1 = ss.latches := hclaims.field
  refine ⟨hbefore, by omega, fun k hk hnot => ?_⟩
  have hholds := hclaims.holds_of_not_finished (Nat.lt_of_lt_of_le hk hbefore) hnot
  have hlast : k + 1 = ss.claims := (hclaims.holds k hholds).1
  have hlatches : ss.latches = ss.claims + 1 :=
    (hclaims.latches_of_holds hholds (hmade k hk)).1
  omega

/-- A waiter whose latch is down may return: it would be the latch of a task that is done. -/
theorem CallerOk.of_down (hclaims : ss.Claims) {before latch : ℕ}
    (h : CallerOk ss (.await before latch)) (hdown : ss.count latch = 0) :
    CallerOk ss (.returned before) := by
  obtain ⟨-, hlatch, hwaits⟩ := h
  intro k hk
  by_contra hnot
  have hown : latch = k + 1 := hwaits k hk (Bool.eq_false_iff.2 hnot)
  rw [hown] at hlatch hdown
  have hcount := hclaims.count k hlatch
  rw [hdown] at hcount
  split at hcount
  · rename_i hended
    rw [hended] at hnot
    exact hnot rfl
  · cases hcount

/-- A claim that a thread has not handed over holds the flag. -/
theorem Inv.holds (h : s.Inv) (hclaim : (s.caller t).claim = some k) :
    (s.snapshots.snapshot k).holdsFlag = true ∧ (s.snapshots.snapshot k).finished = false := by
  have hok := h.callers t
  cases hpc : s.caller t with
  | newLatch | execute =>
    rw [hpc] at hok hclaim
    cases hclaim
    rw [show s.snapshots.snapshot k = _ from hok]
    exact ⟨rfl, rfl⟩
  | _ =>
    rw [hpc] at hclaim
    cases hclaim

variable [DecidableEq T]

/-- A step of a thread keeps the invariant, if it keeps the claims, leaves those of the other
threads alone, and takes the thread to where it may be. -/
theorem Inv.of_step (h : s.Inv) (hclaims : ss.Claims) (hs : Advances s.snapshots ss)
    (hok : CallerOk ss pc)
    (hothers : ∀ u k, u ≠ t → (s.caller u).claim = some k → ss.snapshot k = s.snapshots.snapshot k)
    (hnew : ∀ u k, u ≠ t → (s.caller u).claim = some k → pc.claim ≠ some k) :
    Inv { s.goTo t pc with snapshots := ss } := by
  have hself : (s.goTo t pc).caller t = pc := Function.update_self ..
  have hother : ∀ u, u ≠ t → (s.goTo t pc).caller u = s.caller u :=
    fun u hu => Function.update_of_ne hu ..
  refine ⟨hclaims, fun u => ?_, fun u v k hu hv => ?_⟩
  · by_cases hut : u = t
    · simp only [hut, hself]
      exact hok
    · simp only [hother u hut]
      exact (h.callers u).advance hs fun k => hothers u k hut
  · by_cases hut : u = t
    · by_cases hvt : v = t
      · rw [hut, hvt]
      · simp only [hut, hself] at hu
        simp only [hother v hvt] at hv
        exact absurd hu (hnew v k hvt hv)
    · simp only [hother u hut] at hu
      by_cases hvt : v = t
      · simp only [hvt, hself] at hv
        exact absurd hv (hnew u k hut hu)
      · simp only [hother v hvt] at hv
        exact h.alone u v k hu hv

/-- A step that only moves a thread. -/
theorem Inv.goTo (h : s.Inv) (hpc : pc.claim = none) (hok : CallerOk s.snapshots pc) :
    (s.goTo t pc).Inv := by
  have hadvances : Advances s.snapshots s.snapshots :=
    ⟨Nat.le_refl _, Nat.le_refl _, fun _ h => h⟩
  refine h.of_step h.claims hadvances hok (fun _ _ _ _ => rfl) fun u k _ _ => ?_
  rw [hpc]
  simp

omit [DecidableEq T] in
theorem advances_moveTo {s : Snapshots} {pc : SnapshotPc}
    (hk : (s.snapshot k).finished = true → pc.finished = true) : Advances s (s.moveTo k pc) := by
  refine ⟨Nat.le_refl _, Nat.le_refl _, fun j hj => ?_⟩
  by_cases hjk : j = k
  · rw [hjk] at hj
    rw [hjk, Snapshots.moveTo_self]
    exact hk hj
  · rw [Snapshots.moveTo_of_ne hjk]
    exact hj

omit [DecidableEq T] in
/-- A step of a task moves its snapshot only, which no thread has in its hands. -/
theorem advances_task {s s' : Snapshots} (hs : s.task k = some s') :
    Advances s s' ∧ (∀ j, j ≠ k → s'.snapshot j = s.snapshot j) ∧ s.snapshot k ≠ .claimed ∧
      s.snapshot k ≠ .latched := by
  have hmove : ∀ {pc : SnapshotPc} {saving : Bool} {count : ℕ → ℕ}, pc.finished = true →
      Advances s { s.moveTo k pc with saving := saving, count := count } := by
    intro pc saving count hpc
    have hadvances : Advances s (s.moveTo k pc) := advances_moveTo fun _ => hpc
    exact ⟨hadvances.claims, hadvances.latches, hadvances.finished⟩
  unfold Snapshots.task at hs
  cases hpc : s.snapshot k with
  | working | release | readLatch | countDown =>
    rw [hpc] at hs
    cases hs
    exact ⟨hmove rfl, fun j hj => Snapshots.moveTo_of_ne hj, by simp, by simp⟩
  | _ =>
    rw [hpc] at hs
    cases hs

omit [DecidableEq T] in
/-- No other thread has the claim of this one. -/
theorem Inv.other (h : s.Inv) (hk : (s.caller t).claim = some k) {u : T} {j : ℕ} (hu : u ≠ t)
    (hj : (s.caller u).claim = some j) : j ≠ k := by
  rintro rfl
  exact hu (h.alone u t j hj hk)

/-- The thread that sets the flag has a new claim. -/
theorem Inv.compareAndSet (h : s.Inv) (hfree : s.snapshots.saving = false) :
    Inv { s.goTo t (.newLatch s.snapshots.claims) with snapshots := s.snapshots.claim } := by
  have hne : ∀ u k, (s.caller u).claim = some k → k ≠ s.snapshots.claims := by
    rintro u k hk rfl
    have hlast : s.snapshots.claims + 1 = s.snapshots.claims :=
      (h.claims.holds _ (h.holds hk).1).1
    omega
  have hunclaimed : s.snapshots.snapshot s.snapshots.claims = .unclaimed :=
    h.claims.unclaimed _ (Nat.le_refl _)
  have hadvances : Advances s.snapshots (s.snapshots.moveTo s.snapshots.claims .claimed) :=
    advances_moveTo (by rw [hunclaimed]; exact nofun)
  refine h.of_step (h.claims.claim hfree) ⟨Nat.le_succ _, Nat.le_refl _, hadvances.finished⟩
    Snapshots.moveTo_self (fun u k _ hk => Snapshots.moveTo_of_ne (hne u k hk)) ?_
  exact fun u k _ hk hsame => hne u k hk (Option.some.inj hsame).symm

/-- The thread that makes the latch of its claim does so while no task is about to read the field.
-/
theorem Inv.newLatch (h : s.Inv) (hpc : s.caller t = .newLatch k)
    (hreads : ∀ j < s.snapshots.claims, s.snapshots.snapshot j ≠ .readLatch) :
    Inv { s.goTo t (.execute k) with snapshots := s.snapshots.newLatch k } := by
  have hclaim : (s.caller t).claim = some k := by rw [hpc]; rfl
  have hok : s.snapshots.snapshot k = .claimed := by
    have hok := h.callers t
    rwa [hpc] at hok
  have hadvances : Advances s.snapshots (s.snapshots.moveTo k .latched) :=
    advances_moveTo (by rw [hok]; exact nofun)
  refine h.of_step (h.claims.newLatch hok hreads) ⟨Nat.le_refl _, Nat.le_succ _,
    hadvances.finished⟩ Snapshots.moveTo_self
    (fun u j hu hj => Snapshots.moveTo_of_ne (h.other hclaim hu hj)) ?_
  exact fun u j hu hj hsame => h.other hclaim hu hj (Option.some.inj hsame).symm

/-- The thread hands its claim to the executor. -/
theorem Inv.execute (h : s.Inv) (hpc : s.caller t = .execute k) :
    Inv { s.goTo t .idle with snapshots := s.snapshots.moveTo k .working } := by
  have hclaim : (s.caller t).claim = some k := by rw [hpc]; rfl
  have hok : s.snapshots.snapshot k = .latched := by
    have hok := h.callers t
    rwa [hpc] at hok
  have hadvances : Advances s.snapshots (s.snapshots.moveTo k .working) :=
    advances_moveTo (by rw [hok]; exact nofun)
  have hclaims : (s.snapshots.moveTo k .working).Claims :=
    h.claims.moveTo (by rw [hok]; rfl) (by rw [hok]; simp) rfl (by simp)
  refine h.of_step hclaims hadvances trivial
    (fun u j hu hj => Snapshots.moveTo_of_ne (h.other hclaim hu hj)) fun u j _ _ => ?_
  simp [CallerPc.claim]

/-- A statement of a thread, in turn, keeps the invariant. -/
theorem Inv.stepCaller (h : s.Inv) (hturn : s.InTurn (.step t) = true)
    (hs : s.stepCaller t = some s') : s'.Inv := by
  have hok := h.callers t
  unfold Handshake.stepCaller at hs
  unfold InTurn at hturn
  cases hpc : s.caller t with
  | compareAndSet =>
    simp only [hpc] at hs
    split at hs
    -- The flag is set already, or the thread has won it.
    · cases hs
      exact h.goTo rfl trivial
    · cases hs
      exact h.compareAndSet (Bool.eq_false_iff.2 ‹_›)
  | newLatch k =>
    simp only [hpc, decide_eq_true_eq] at hs hturn
    cases hs
    exact h.newLatch hpc hturn
  | execute k =>
    simp only [hpc] at hs
    cases hs
    exact h.execute hpc
  | get before =>
    rw [hpc] at hok
    simp only [hpc] at hs
    split at hs
    -- The flag is set and the latch is next, or there is nothing to wait for.
    · cases hs
      exact h.goTo rfl hok
    · cases hs
      exact h.goTo rfl (.of_free h.claims hok (Bool.eq_false_iff.2 ‹_›))
  | readLatch before =>
    rw [hpc] at hok
    simp only [hpc, decide_eq_true_eq] at hs hturn
    cases hs
    exact h.goTo rfl (.of_read h.claims hok hturn)
  | await before latch =>
    rw [hpc] at hok
    simp only [hpc] at hs
    split at hs
    · rename_i hdown
      cases hs
      exact h.goTo rfl (.of_down h.claims hok hdown)
    · cases hs
  | idle | returned =>
    simp only [hpc, reduceCtorEq] at hs

/-- An action in turn keeps the invariant. -/
theorem Inv.step {a : Action T} (h : s.Inv) (hturn : s.InTurn a = true)
    (hs : lts.step s a = some s') : s'.Inv := by
  cases a with
  | createSnapshot t =>
    simp only [lts] at hs
    split at hs
    · cases hs
      exact h.goTo rfl trivial
    · cases hs
  | waitForSnapshotToComplete t =>
    simp only [lts] at hs
    split at hs
    · cases hs
      exact h.goTo rfl (Nat.le_refl _)
    · cases hs
  | step t => exact h.stepCaller hturn hs
  | refuse t => cases hturn
  | interrupt t =>
    simp only [lts] at hs
    split at hs
    · cases hs
      exact h.goTo rfl trivial
    · cases hs
  | task k =>
    obtain ⟨snapshots, htask, rfl⟩ := Option.map_eq_some_iff.1 hs
    obtain ⟨hadvances, hothers, hclaimed, hlatched⟩ := advances_task htask
    refine ⟨h.claims.task htask, fun u => ?_, h.alone⟩
    -- The claim of a thread that is still in `createSnapshot` has no task yet.
    refine (h.callers u).advance hadvances fun j hj => hothers j ?_
    rintro rfl
    have hok := h.callers u
    cases hpc : s.caller u with
    | newLatch i =>
      rw [hpc] at hok hj
      cases hj
      exact hclaimed hok
    | execute i =>
      rw [hpc] at hok hj
      cases hj
      exact hlatched hok
    | _ =>
      rw [hpc] at hj
      cases hj

omit [DecidableEq T] in
/-- What the invariant is for. -/
theorem Inv.sound (h : s.Inv) : s.Sound := by
  refine ⟨fun t before ht => ?_, fun t before latch ht hup => ?_, fun hsaving => ?_⟩
  · have hok := h.callers t
    rwa [ht] at hok
  · have hok := h.callers t
    rw [ht] at hok
    exact h.claims.willCountDown hok.2.1 hup
  · obtain ⟨k, hk⟩ := h.claims.flag hsaving
    have hlast : k + 1 = s.snapshots.claims := (h.claims.holds k hk).1
    exact ⟨k, by omega, hk⟩

/-- In every run of any number of threads, each with any number of calls of `createSnapshot` and
`waitForSnapshotToComplete`, and of the tasks: if no waiter reads the field while the latch of a
snapshot claimed before its wait is still to be made, no latch is made while a task has cleared the
flag and not read the field, and `execute` never throws, then the handshake is sound in the state
reached. -/
theorem handshake_sound {actions : List (Action T)} (h : lts.exec {} actions = some s)
    (hturn : lts.Guarded (fun s a => InTurn s a = true) {} actions) : s.Sound := by
  have hinit : Inv ({} : Handshake T) := by
    refine ⟨⟨fun _ _ => rfl, nofun, nofun, nofun, rfl, .inr ⟨rfl, nofun⟩, rfl, ?_, nofun, nofun⟩,
      fun _ => trivial, nofun⟩
    intro k hk
    replace hk : k + 1 < 1 := hk
    omega
  exact (lts.exec_guarded_invariant _ Inv (fun s a s' hi hok hs => hi.step hok hs) hinit hturn h).sound

end Invariant

/-! ## Runs -/

/-- A snapshot, and a wait for it: the thread reads the flag and the field, the task runs, and the
thread returns. -/
def waitsForWork : List (Action Bool) :=
  [.createSnapshot true, .step true, .step true, .step true, .waitForSnapshotToComplete false,
    .step false, .step false, .task 0, .task 0, .task 0, .task 0, .step false]

/-- The wait returns after the work. -/
theorem handshake_sound_waitsForWork :
    ∃ s : Handshake Bool, lts.exec {} waitsForWork = some s ∧ s.caller false = .returned 1 ∧
      s.Sound := by
  have hrun : (lts.exec {} waitsForWork).any (fun s : Handshake Bool =>
      decide (s.caller false = .returned 1)) = true := by
    decide +kernel
  have hturn : lts.Guarded (fun (s : Handshake Bool) a => InTurn s a = true) {} waitsForWork := by
    decide +kernel
  obtain ⟨s, hs, hafter⟩ := (Option.any_eq_true _ _).1 hrun
  exact ⟨s, hs, of_decide_eq_true hafter, handshake_sound hs hturn⟩

/-- A thread sets the flag; before it makes the latch, another one reads the flag and the field. -/
def readsOldLatch : List (Action Bool) :=
  [.createSnapshot true, .step true, .waitForSnapshotToComplete false, .step false, .step false,
    .step false]

/-- The wait returns at once, and the work has not begun. -/
theorem readsOldLatch_returns :
    ∃ s : Handshake Bool, lts.exec {} readsOldLatch = some s ∧ s.caller false = .returned 1 ∧
      s.snapshots.snapshot 0 = .claimed ∧ ¬s.Sound := by
  have hrun : (lts.exec {} readsOldLatch).any (fun s : Handshake Bool =>
      decide (s.caller false = .returned 1 ∧ s.snapshots.snapshot 0 = .claimed)) = true := by
    decide +kernel
  obtain ⟨s, hs, hafter⟩ := (Option.any_eq_true _ _).1 hrun
  obtain ⟨hreturned, hclaimed⟩ := of_decide_eq_true hafter
  refine ⟨s, hs, hreturned, hclaimed, fun hsound => ?_⟩
  have hfinished := hsound.returned false 1 hreturned 0 Nat.zero_lt_one
  rw [hclaimed] at hfinished
  cases hfinished

end Handshake

end Hacep
