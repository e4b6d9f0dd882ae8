import Hacep.Lib.Progress
import Hacep.Session.Handshake

/-!
# Who waits for a snapshot is released

A thread that waits for a snapshot is blocked on the latch that it has read. `released_iff` says of
every run when it can be released: if and only if there is a snapshot whose task will count that
latch down, by reading it from the field or having read it. A latch that is replaced in the field
before its task has read it is lost, and a thread that is blocked on it is blocked for good.

A call has no more than three steps of its own, and the task that it may hand over no more than four
(`countP_steps_le`, `countP_task_le`). In turn no latch is lost, no task is refused and nothing else
stops a call: a run can always be continued to a state in which every call has returned and every
snapshot is done (`handshake_ends`).

Both need to know who will take a claimed snapshot further, in turn or not; that is `Placed`.
-/

namespace Hacep

/-- The steps that the task of a snapshot has before it. -/
def SnapshotPc.toCome : SnapshotPc → ℕ
  | .working => 4
  | .release => 3
  | .readLatch => 2
  | .countDown _ => 1
  | .unclaimed | .claimed | .latched | .done | .refused => 0

/-- The steps that a call has before it at most, with those of the task that it hands over. -/
def CallerPc.toCome : CallerPc → ℕ
  | .compareAndSet => 7
  | .newLatch _ => 6
  | .execute _ => 5
  | .get _ => 3
  | .readLatch _ => 2
  | .await _ _ => 1
  | .idle | .returned _ => 0

/-- The steps that a call has before it at most, without those of the task. -/
def CallerPc.own : CallerPc → ℕ
  | .compareAndSet | .get _ => 3
  | .newLatch _ | .readLatch _ => 2
  | .execute _ | .await _ _ => 1
  | .idle | .returned _ => 0

/-- The steps that the task of a snapshot has before it at most, also where it is still to be handed
over. -/
def SnapshotPc.remaining : SnapshotPc → ℕ
  | .unclaimed | .claimed | .latched | .working => 4
  | .release => 3
  | .readLatch => 2
  | .countDown _ => 1
  | .done | .refused => 0

/-- What a step of a task does: it takes the snapshot on, and writes the flag or a latch. -/
theorem Snapshots.task_eq_some {s s' : Snapshots} {k : ℕ} (h : s.task k = some s') :
    ∃ pc, s'.snapshot = Function.update s.snapshot k pc ∧
      pc.toCome + 1 = (s.snapshot k).toCome ∧ pc ≠ .claimed ∧ pc ≠ .latched ∧
      s'.claims = s.claims ∧ s'.latch = s.latch ∧ s'.latches = s.latches ∧
      (s'.count = s.count ∧ (∀ l, s.snapshot k ≠ .countDown l) ∧
          (∀ l, pc = .countDown l → s.snapshot k = .readLatch ∧ l = s.latch) ∨
        ∃ l, s.snapshot k = .countDown l ∧ pc = .done ∧
          s'.count = Function.update s.count l (s.count l - 1)) := by
  unfold task at h
  cases hpc : s.snapshot k with
  | working | release =>
    rw [hpc] at h
    cases h
    exact ⟨_, rfl, rfl, by simp, by simp, rfl, rfl, rfl, .inl ⟨rfl, by simp, by simp⟩⟩
  | readLatch =>
    rw [hpc] at h
    cases h
    refine ⟨_, rfl, rfl, by simp, by simp, rfl, rfl, rfl, .inl ⟨rfl, by simp, fun l hl => ?_⟩⟩
    cases hl
    exact ⟨rfl, rfl⟩
  | countDown l =>
    rw [hpc] at h
    cases h
    exact ⟨_, rfl, rfl, by simp, by simp, rfl, rfl, rfl, .inr ⟨l, rfl, rfl, rfl⟩⟩
  | unclaimed | claimed | latched | done | refused =>
    rw [hpc] at h
    cases h

namespace Handshake

variable {T : Type} {s s' : Handshake T} {ss : Snapshots} {t : T} {pc : CallerPc}

/-- A claimed snapshot is in the hands of one thread until its task is handed over. -/
structure Placed (s : Handshake T) : Prop where
  unclaimed : ∀ k, s.snapshots.claims ≤ k → s.snapshots.snapshot k = .unclaimed
  claimed : ∀ k, s.snapshots.snapshot k = .claimed ↔ ∃ t, s.caller t = .newLatch k
  latched : ∀ k, s.snapshots.snapshot k = .latched ↔ ∃ t, s.caller t = .execute k
  alone : ∀ t u k, (s.caller t).claim = some k → (s.caller u).claim = some k → t = u
  /-- The latches in the field and at the waiters have been made. -/
  field : s.snapshots.latch < s.snapshots.latches
  await : ∀ t before l, s.caller t = .await before l → l < s.snapshots.latches
  count : ∀ l, s.snapshots.count l ≤ 1

/-- A claim that has been made is one of the claims. -/
theorem Placed.lt (h : s.Placed) {k : ℕ} (hk : s.snapshots.snapshot k ≠ .unclaimed) :
    k < s.snapshots.claims := by
  by_contra hge
  exact hk (h.unclaimed k (Nat.le_of_not_lt hge))

/-- A thread that has a claim in its hands has one that has been made. -/
theorem Placed.claim_lt (h : s.Placed) {k : ℕ} (hk : (s.caller t).claim = some k) :
    k < s.snapshots.claims := by
  refine h.lt ?_
  cases hpc : s.caller t with
  | newLatch k' =>
    rw [hpc] at hk
    cases hk
    rw [(h.claimed k).2 ⟨t, hpc⟩]
    simp
  | execute k' =>
    rw [hpc] at hk
    cases hk
    rw [(h.latched k).2 ⟨t, hpc⟩]
    simp
  | _ =>
    rw [hpc] at hk
    cases hk

variable [DecidableEq T]

/-- A thread that has no claim in its hands before or after goes on. -/
theorem Placed.goTo (h : s.Placed) (hfree : (s.caller t).claim = none) (hpc : pc.claim = none)
    (hawait : ∀ before l, pc = .await before l → l < s.snapshots.latches) :
    (s.goTo t pc).Placed := by
  have hother : ∀ u, u ≠ t → (s.goTo t pc).caller u = s.caller u := fun u hu =>
    Function.update_of_ne hu ..
  have hself : (s.goTo t pc).caller t = pc := Function.update_self ..
  -- The claims that the threads have in their hands are the same.
  have hclaim : ∀ u, ((s.goTo t pc).caller u).claim = (s.caller u).claim := by
    intro u
    by_cases hu : u = t
    · rw [hu, hself, hfree, hpc]
    · rw [hother u hu]
  have hsame : ∀ pc' : CallerPc, pc'.claim ≠ none →
      ((∃ u, s.caller u = pc') ↔ ∃ u, (s.goTo t pc).caller u = pc') := by
    refine fun pc' hpc' => ⟨fun ⟨u, hu⟩ => ⟨u, ?_⟩, fun ⟨u, hu⟩ => ⟨u, ?_⟩⟩
    · have hut : u ≠ t := by
        rintro rfl
        exact hpc' (hu ▸ hfree)
      rw [hother u hut, hu]
    · have hut : u ≠ t := by
        rintro rfl
        rw [hself] at hu
        exact hpc' (hu ▸ hpc)
      rw [← hother u hut, hu]
  refine ⟨h.unclaimed, fun k => (h.claimed k).trans (hsame _ (by simp [CallerPc.claim])),
    fun k => (h.latched k).trans (hsame _ (by simp [CallerPc.claim])), fun u v k hu hv => ?_,
    h.field, fun u before l hu => ?_, h.count⟩
  · rw [hclaim] at hu hv
    exact h.alone u v k hu hv
  · by_cases hut : u = t
    · rw [hut, hself] at hu
      exact hawait before l hu
    · rw [hother u hut] at hu
      exact h.await u before l hu

/-- A thread takes the claim that it has in its hands, or a new one, a step further. -/
theorem Placed.takes (h : s.Placed) {k : ℕ} (spc : SnapshotPc)
    (hmine : (s.caller t).claim = some k ∨ (s.caller t).claim = none ∧ k = s.snapshots.claims)
    (hpc : pc.claim = some k ∨ pc = .idle)
    (hclaimed : spc = .claimed ↔ pc = .newLatch k) (hlatched : spc = .latched ↔ pc = .execute k)
    (hsnapshot : ss.snapshot = Function.update s.snapshots.snapshot k spc)
    (hclaims : s.snapshots.claims ≤ ss.claims ∧ k < ss.claims)
    (hlatches : s.snapshots.latches ≤ ss.latches) (hfield : ss.latch < ss.latches)
    (hcount : ∀ l, ss.count l ≤ 1) : Placed { s.goTo t pc with snapshots := ss } := by
  -- No other thread has the claim in its hands.
  have hnot : ∀ u, u ≠ t → (s.caller u).claim ≠ some k := by
    intro u hu hk
    rcases hmine with hmine | ⟨-, rfl⟩
    · exact hu (h.alone u t k hk hmine)
    · exact absurd (h.claim_lt hk) (Nat.lt_irrefl _)
  have hk : ∀ u pc', pc'.claim = some k →
      (Function.update s.caller t pc u = pc' ↔ u = t ∧ pc = pc') := by
    intro u pc' hpc'
    by_cases hu : u = t
    · subst hu
      simp
    · rw [Function.update_of_ne hu]
      exact ⟨fun hu' => absurd (hu' ▸ hpc') (hnot u hu), fun hu' => absurd hu'.1 hu⟩
  have hj : ∀ u pc' j, pc'.claim = some j → j ≠ k →
      (Function.update s.caller t pc u = pc' ↔ s.caller u = pc') := by
    intro u pc' j hpc' hjk
    by_cases hu : u = t
    · subst hu
      rw [Function.update_self]
      constructor
      · rintro rfl
        rcases hpc with hpc | rfl
        · exact absurd (Option.some.inj (hpc'.symm.trans hpc)) hjk
        · cases hpc'
      · rintro rfl
        rcases hmine with hmine | ⟨hmine, -⟩
        · exact absurd (Option.some.inj (hpc'.symm.trans hmine)) hjk
        · cases hpc'.symm.trans hmine
    · rw [Function.update_of_ne hu]
  have hplace : ∀ pc' spc' j, pc'.claim = some j → (j = k → (spc = spc' ↔ pc = pc')) →
      (s.snapshots.snapshot j = spc' ↔ ∃ u, s.caller u = pc') →
      (ss.snapshot j = spc' ↔ ∃ u, Function.update s.caller t pc u = pc') := by
    intro pc' spc' j hpc' hnew hold
    rw [hsnapshot]
    by_cases hjk : j = k
    · subst hjk
      simp only [Function.update_self, hk _ _ hpc', hnew rfl, exists_eq_left]
    · simp only [Function.update_of_ne hjk, hj _ _ _ hpc' hjk, hold]
  constructor
  case unclaimed =>
    intro j hjge
    have hjge : ss.claims ≤ j := hjge
    show ss.snapshot j = _
    rw [hsnapshot, Function.update_of_ne (by omega)]
    exact h.unclaimed j (by omega)
  case claimed => exact fun j => hplace _ _ j rfl (fun hjk => hjk ▸ hclaimed) (h.claimed j)
  case latched => exact fun j => hplace _ _ j rfl (fun hjk => hjk ▸ hlatched) (h.latched j)
  case alone =>
    intro u v j hu hv
    have hu : (Function.update s.caller t pc u).claim = some j := hu
    have hv : (Function.update s.caller t pc v).claim = some j := hv
    by_cases hjk : j = k
    · subst hjk
      exact ((hk u _ hu).1 rfl).1.trans ((hk v _ hv).1 rfl).1.symm
    · have hu' := (hj u _ j hu hjk).1 rfl
      have hv' := (hj v _ j hv hjk).1 rfl
      exact h.alone u v j (hu' ▸ hu) (hv' ▸ hv)
  case field => exact hfield
  case await =>
    intro u before l hu
    have hu : Function.update s.caller t pc u = .await before l := hu
    by_cases hut : u = t
    · subst hut
      rw [Function.update_self] at hu
      rcases hpc with hpc | hpc <;> rw [hu] at hpc <;> cases hpc
    · rw [Function.update_of_ne hut] at hu
      exact Nat.lt_of_lt_of_le (h.await u before l hu) hlatches
  case count => exact hcount

/-- A statement of a thread keeps the snapshots in their places. -/
theorem Placed.of_stepCaller (h : s.Placed) (hs : s.stepCaller t = some s') : s'.Placed := by
  simp only [stepCaller] at hs
  cases hpc : s.caller t with
  | idle | returned =>
    rw [hpc] at hs
    cases hs
  | compareAndSet =>
    have hfree : (s.caller t).claim = none := by rw [hpc]; rfl
    simp only [hpc] at hs
    split at hs <;> cases hs
    · exact h.goTo hfree rfl (fun _ _ h => by cases h)
    · exact h.takes (k := s.snapshots.claims) .claimed (.inr ⟨hfree, rfl⟩) (.inl rfl)
        (by simp) (by simp) rfl ⟨Nat.le_succ _, Nat.lt_succ_self _⟩ (Nat.le_refl _) h.field h.count
  | newLatch k =>
    have hclaim : (s.caller t).claim = some k := by rw [hpc]; rfl
    simp only [hpc, Option.some.injEq] at hs
    subst hs
    refine h.takes .latched (.inl hclaim) (.inl rfl) (by simp) (by simp) rfl
      ⟨Nat.le_refl _, h.claim_lt hclaim⟩ (Nat.le_succ _) (Nat.lt_succ_self _) fun l => ?_
    show Function.update s.snapshots.count s.snapshots.latches 1 l ≤ 1
    by_cases hl : l = s.snapshots.latches
    · rw [hl, Function.update_self]
    · rw [Function.update_of_ne hl]
      exact h.count l
  | execute k =>
    have hclaim : (s.caller t).claim = some k := by rw [hpc]; rfl
    simp only [hpc, Option.some.injEq] at hs
    subst hs
    exact h.takes .working (.inl hclaim) (.inr rfl) (by simp) (by simp) rfl
      ⟨Nat.le_refl _, h.claim_lt hclaim⟩ (Nat.le_refl _) h.field h.count
  | get before =>
    have hfree : (s.caller t).claim = none := by rw [hpc]; rfl
    simp only [hpc] at hs
    split at hs <;> cases hs
    · exact h.goTo hfree rfl (fun _ _ h => by cases h)
    · exact h.goTo hfree rfl (fun _ _ h => by cases h)
  | readLatch before =>
    simp only [hpc, Option.some.injEq] at hs
    subst hs
    refine h.goTo (by rw [hpc]; rfl) rfl (fun _ l hl => ?_)
    cases hl
    exact h.field
  | await before l =>
    simp only [hpc] at hs
    split at hs <;> cases hs
    exact h.goTo (by rw [hpc]; rfl) rfl (fun _ _ h => by cases h)

omit [DecidableEq T] in
/-- So does a statement of a task. -/
theorem Placed.of_task {snapshots : Snapshots} (h : s.Placed)
    (htask : s.snapshots.task k = some snapshots) : { s with snapshots }.Placed := by
  obtain ⟨pc, hsnapshot, hcome, hclaimed, hlatched, hclaims, hlatch, hlatches, hcount⟩ :=
    Snapshots.task_eq_some htask
  -- The snapshot is in nobody's hands before and after.
  have hplace : ∀ spc j, spc = .claimed ∨ spc = .latched →
      (snapshots.snapshot j = spc ↔ s.snapshots.snapshot j = spc) := by
    intro spc j hspc
    rw [hsnapshot]
    by_cases hjk : j = k
    · subst hjk
      rw [Function.update_self]
      rcases hspc with rfl | rfl
      · refine ⟨fun h => absurd h hclaimed, fun h => ?_⟩
        rw [h] at hcome
        cases hcome
      · refine ⟨fun h => absurd h hlatched, fun h => ?_⟩
        rw [h] at hcome
        cases hcome
    · rw [Function.update_of_ne hjk]
  refine ⟨fun j hj => ?_, fun j => (hplace _ j (.inl rfl)).trans (h.claimed j),
    fun j => (hplace _ j (.inr rfl)).trans (h.latched j), h.alone, ?_, fun u before l hu => ?_,
    fun l => ?_⟩
  · have hold := h.unclaimed j (hclaims ▸ hj)
    have hjk : j ≠ k := by
      rintro rfl
      rw [hold] at hcome
      cases hcome
    rw [hsnapshot, Function.update_of_ne hjk, hold]
  · show snapshots.latch < snapshots.latches
    rw [hlatch, hlatches]
    exact h.field
  · exact hlatches ▸ h.await u before l hu
  · show snapshots.count l ≤ 1
    have hold := h.count l
    rcases hcount with ⟨hcount, -⟩ | ⟨l', -, -, hcount⟩
    · rw [hcount]
      exact hold
    · rw [hcount]
      by_cases hl : l = l'
      · subst hl
        rw [Function.update_self]
        omega
      · rw [Function.update_of_ne hl]
        exact hold

/-- A step, in turn or not, keeps every claim in the hands of one thread. -/
theorem Placed.step {a : Action T} (h : s.Placed) (hs : lts.step s a = some s') : s'.Placed := by
  cases a with
  | createSnapshot t | waitForSnapshotToComplete t =>
    simp only [lts] at hs
    split at hs
    · rename_i hresting
      cases hs
      refine h.goTo ?_ rfl (fun _ _ h => by cases h)
      cases hpc : s.caller t <;> rw [hpc] at hresting <;> first | rfl | cases hresting
    · cases hs
  | interrupt t =>
    simp only [lts] at hs
    split at hs
    · rename_i hpc
      cases hs
      exact h.goTo (by rw [hpc]; rfl) rfl (fun _ _ h => by cases h)
    · cases hs
  | refuse t =>
    simp only [lts] at hs
    split at hs
    · rename_i k hpc
      cases hs
      have hclaim : (s.caller t).claim = some k := by rw [hpc]; rfl
      exact h.takes _ (.inl hclaim) (.inr rfl) (by simp) (by simp) rfl
        ⟨Nat.le_refl _, h.claim_lt hclaim⟩ (Nat.le_refl _) h.field h.count
    · cases hs
  | step t => exact h.of_stepCaller hs
  | task k =>
    obtain ⟨snapshots, htask, rfl⟩ := Option.map_eq_some_iff.1 hs
    exact h.of_task htask

omit [DecidableEq T] in
theorem placed_initial : Placed ({} : Handshake T) := by
  refine ⟨fun _ _ => rfl, fun k => ⟨fun h => (by cases h), fun ⟨t, h⟩ => (by cases h)⟩,
    fun k => ⟨fun h => (by cases h), fun ⟨t, h⟩ => (by cases h)⟩, fun _ _ _ h => (by cases h),
    Nat.zero_lt_one, fun _ _ _ h => (by cases h), fun _ => Nat.zero_le 1⟩

/-! ## Latches that are lost -/

/-- A latch that is up and that no task will count down. -/
structure Lost (s : Snapshots) (latch : ℕ) : Prop where
  up : s.count latch ≠ 0
  made : latch < s.latches
  lost : ∀ k, ¬s.WillCountDown k latch

omit [DecidableEq T] in
/-- A latch stays lost where one snapshot goes on and the field is written at most with a new latch.
-/
theorem Lost.update {ss' : Snapshots} {latch k : ℕ} {spc : SnapshotPc} (h : Lost ss latch)
    (hsnapshot : ss'.snapshot = Function.update ss.snapshot k spc)
    (hcount : ss'.count latch = ss.count latch) (hmade : ss.latches ≤ ss'.latches)
    (hfield : ss'.latch = ss.latch ∨ ss.latches ≤ ss'.latch) (hnew : ¬ss'.WillCountDown k latch) :
    Lost ss' latch := by
  refine ⟨hcount ▸ h.up, Nat.lt_of_lt_of_le h.made hmade, fun j hj => ?_⟩
  by_cases hjk : j = k
  · exact hnew (hjk ▸ hj)
  · refine h.lost j ?_
    have hmade := h.made
    unfold Snapshots.WillCountDown at hj ⊢
    rw [hsnapshot, Function.update_of_ne hjk] at hj
    cases hpc : ss.snapshot j with
    | latched | working | release | readLatch =>
      rw [hpc] at hj
      show ss.latch = latch
      replace hj : ss'.latch = latch := hj
      omega
    | countDown l =>
      rw [hpc] at hj
      exact hj
    | unclaimed | claimed | done | refused =>
      rw [hpc] at hj
      exact hj

/-- A lost latch stays lost, and stays up. -/
theorem Lost.step {a : Action T} {latch : ℕ} (h : Lost s.snapshots latch) (hplaced : s.Placed)
    (hs : lts.step s a = some s') : Lost s'.snapshots latch := by
  have hlost : ∀ k, ¬s.snapshots.WillCountDown k latch := h.lost
  cases a with
  | createSnapshot t | waitForSnapshotToComplete t =>
    simp only [lts] at hs
    split at hs <;> cases hs
    exact h
  | interrupt t =>
    simp only [lts] at hs
    split at hs <;> cases hs
    exact h
  | refuse t =>
    simp only [lts] at hs
    split at hs <;> cases hs
    rename_i k hpc
    refine h.update rfl rfl (Nat.le_refl _) (.inl rfl) (k := k) ?_
    simp [Snapshots.WillCountDown, Snapshots.moveTo]
  | step t =>
    simp only [lts, stepCaller] at hs
    cases hpc : s.caller t with
    | idle | returned =>
      rw [hpc] at hs
      cases hs
    | compareAndSet =>
      simp only [hpc] at hs
      split at hs <;> cases hs
      · exact h
      · refine h.update rfl rfl (Nat.le_refl _) (.inl rfl) (k := s.snapshots.claims) ?_
        simp [Snapshots.WillCountDown, Snapshots.claim, Snapshots.moveTo]
    | newLatch k =>
      simp only [hpc, Option.some.injEq] at hs
      subst hs
      have hne : latch ≠ s.snapshots.latches := Nat.ne_of_lt h.made
      refine h.update rfl (Function.update_of_ne hne ..) (Nat.le_succ _) (.inr (Nat.le_refl _))
        (k := k) ?_
      simpa [Snapshots.WillCountDown, Snapshots.newLatch, Snapshots.moveTo] using hne.symm
    | execute k =>
      simp only [hpc, Option.some.injEq] at hs
      subst hs
      have hlatched := (hplaced.latched k).2 ⟨t, hpc⟩
      refine h.update rfl rfl (Nat.le_refl _) (.inl rfl) (k := k) fun hwill => hlost k ?_
      simpa [Snapshots.WillCountDown, Snapshots.moveTo, hlatched] using hwill
    | get before =>
      simp only [hpc] at hs
      split at hs <;> cases hs <;> exact h
    | readLatch before =>
      simp only [hpc, Option.some.injEq] at hs
      subst hs
      exact h
    | await before l =>
      simp only [hpc] at hs
      split at hs <;> cases hs
      exact h
  | task k =>
    obtain ⟨snapshots, htask, rfl⟩ := Option.map_eq_some_iff.1 hs
    have hlostk := hlost k
    unfold Snapshots.task at htask
    unfold Snapshots.WillCountDown at hlostk
    cases hpc : s.snapshots.snapshot k with
    | working | release | readLatch =>
      rw [hpc] at htask hlostk
      cases htask
      refine h.update rfl rfl (Nat.le_refl _) (.inl rfl) (k := k) ?_
      simpa [Snapshots.WillCountDown, Snapshots.moveTo] using hlostk
    | countDown l =>
      rw [hpc] at htask hlostk
      cases htask
      have hne : latch ≠ l := fun hl => hlostk hl.symm
      refine h.update rfl (Function.update_of_ne hne ..) (Nat.le_refl _) (.inl rfl) (k := k) ?_
      simp [Snapshots.WillCountDown, Snapshots.moveTo]
    | unclaimed | claimed | latched | done | refused =>
      rw [hpc] at htask
      cases htask

/-- A thread that is blocked on a lost latch is blocked, unless it is interrupted. -/
theorem Lost.blocks {latch before : ℕ} {actions : List (Action T)} (h : Lost s.snapshots latch)
    (hplaced : s.Placed) (ht : s.caller t = .await before latch)
    (hnot : ∀ a ∈ actions, a ≠ .interrupt t) (hs : lts.exec s actions = some s') :
    s'.caller t = .await before latch := by
  induction actions generalizing s with
  | nil =>
    cases hs
    exact ht
  | cons a actions ih =>
    obtain ⟨s₁, hstep, hs⟩ := lts.exec_cons_eq_some.1 hs
    refine ih (h.step hplaced hstep) (hplaced.step hstep) ?_
      (fun b hb => hnot b (List.mem_cons_of_mem _ hb)) hs
    have hinterrupt := hnot a List.mem_cons_self
    have hup := h.up
    -- The thread itself can take no step, and the others leave it where it is.
    have hgoTo : ∀ (u : T) (pc : CallerPc), u ≠ t → (s.goTo u pc).caller t = .await before latch :=
      fun u pc hu => (Function.update_of_ne (Ne.symm hu) ..).trans ht
    cases a with
    | createSnapshot u | waitForSnapshotToComplete u =>
      simp only [lts] at hstep
      split at hstep <;> cases hstep
      rename_i hresting
      refine hgoTo u _ ?_
      rintro rfl
      rw [ht] at hresting
      cases hresting
    | interrupt u =>
      simp only [lts] at hstep
      split at hstep <;> cases hstep
      exact hgoTo u _ fun hu => hinterrupt (by rw [hu])
    | refuse u =>
      simp only [lts] at hstep
      split at hstep <;> cases hstep
      rename_i k hpc
      refine hgoTo u _ ?_
      rintro rfl
      rw [ht] at hpc
      cases hpc
    | step u =>
      have hu : u ≠ t := by
        rintro rfl
        simp [lts, stepCaller, ht, hup] at hstep
      simp only [lts, stepCaller] at hstep
      split at hstep
      · split at hstep <;> cases hstep <;> exact hgoTo u _ hu
      · cases hstep
        exact hgoTo u _ hu
      · cases hstep
        exact hgoTo u _ hu
      · split at hstep <;> cases hstep <;> exact hgoTo u _ hu
      · cases hstep
        exact hgoTo u _ hu
      · split at hstep <;> cases hstep
        exact hgoTo u _ hu
      · cases hstep
      · cases hstep
    | task k =>
      obtain ⟨snapshots, -, rfl⟩ := Option.map_eq_some_iff.1 hstep
      exact ht

omit [DecidableEq T] in
/-- A task that is going to count a latch down comes nearer to it. -/
theorem task_toward {k latch come : ℕ} (hwill : ss.WillCountDown k latch)
    (hcome : (ss.snapshot k).toCome = come + 2) :
    ∃ ss', ss.task k = some ss' ∧ ss'.count = ss.count ∧ ss'.WillCountDown k latch ∧
      (ss'.snapshot k).toCome = come + 1 := by
  unfold Snapshots.WillCountDown at hwill
  unfold Snapshots.task
  cases hpc : ss.snapshot k with
  | unclaimed | claimed | latched | done | refused | countDown =>
    rw [hpc] at hcome
    cases hcome
  | working =>
    rw [hpc] at hwill hcome
    cases hcome
    refine ⟨ss.moveTo k .release, rfl, rfl, ?_, ?_⟩
    · rwa [Snapshots.WillCountDown, Snapshots.moveTo_self]
    · rw [Snapshots.moveTo_self]
      rfl
  | release =>
    rw [hpc] at hwill hcome
    cases hcome
    refine ⟨{ ss.moveTo k .readLatch with saving := false }, rfl, rfl, ?_, ?_⟩
    · rwa [Snapshots.WillCountDown, Snapshots.moveTo_self]
    · rw [Snapshots.moveTo_self]
      rfl
  | readLatch =>
    rw [hpc] at hwill hcome
    cases hcome
    refine ⟨ss.moveTo k (.countDown ss.latch), rfl, rfl, ?_, ?_⟩
    · rwa [Snapshots.WillCountDown, Snapshots.moveTo_self]
    · rw [Snapshots.moveTo_self]
      rfl

/-- A task that has been handed over and will count a latch down does so, by itself. -/
theorem runs_task {k latch come : ℕ} (hwill : s.snapshots.WillCountDown k latch)
    (hcome : (s.snapshots.snapshot k).toCome = come + 1) :
    ∃ n s', lts.exec s (List.replicate n (.task k)) = some s' ∧ s'.caller = s.caller ∧
      s'.snapshots.count latch = s.snapshots.count latch - 1 := by
  -- By induction on the steps that the task has before it.
  induction come generalizing s with
  | zero =>
    unfold Snapshots.WillCountDown at hwill
    cases hpc : s.snapshots.snapshot k with
    | countDown l =>
      rw [hpc] at hwill
      have hl : l = latch := hwill
      subst hl
      refine ⟨1, { s with snapshots := { s.snapshots.moveTo k .done with
        count := Function.update s.snapshots.count l (s.snapshots.count l - 1) } }, ?_, rfl,
        Function.update_self ..⟩
      simp [Lts.exec, lts, Snapshots.task, hpc]
    | _ =>
      rw [hpc] at hcome
      cases hcome
  | succ come ih =>
    obtain ⟨ss, htask, hcount, hwill', hcome'⟩ := task_toward hwill hcome
    obtain ⟨n, s', hexec, hcaller, hcount'⟩ := ih (s := { s with snapshots := ss }) hwill' hcome'
    refine ⟨n + 1, s', lts.exec_cons_eq_some.2 ⟨{ s with snapshots := ss }, ?_, hexec⟩, hcaller, ?_⟩
    · simp [lts, htask]
    · rw [hcount', hcount]

/-- In every run, in turn or not, and also where `execute` throws: a thread that is blocked on a
latch can be released, without being interrupted, if and only if the task of a snapshot will count
the latch down. -/
theorem released_iff {actions : List (Action T)} {before latch : ℕ}
    (h : lts.exec {} actions = some s) (ht : s.caller t = .await before latch)
    (hup : s.snapshots.count latch ≠ 0) :
    (∃ actions' s', (∀ a ∈ actions', a ≠ .interrupt t) ∧ lts.exec s actions' = some s' ∧
        s'.caller t = .returned before) ↔
      ∃ k, s.snapshots.WillCountDown k latch := by
  have hplaced : s.Placed :=
    lts.exec_invariant Placed (fun _ _ _ hi hs => hi.step hs) placed_initial h
  constructor
  · rintro ⟨actions', s', hnot, hs', hreturned⟩
    by_contra hnone
    have hlost : Lost s.snapshots latch :=
      ⟨hup, hplaced.await t before latch ht, fun k hk => hnone ⟨k, hk⟩⟩
    rw [hlost.blocks hplaced ht hnot hs'] at hreturned
    cases hreturned
  · rintro ⟨k, hwill⟩
    -- Where the task has not been handed over, that is the first step.
    obtain ⟨first, s₁, hfirst, hnot, hcaller, hcount, hwill₁, come, hcome⟩ : ∃ first s₁,
        lts.exec s first = some s₁ ∧ (∀ a ∈ first, a ≠ .interrupt t) ∧
        s₁.caller t = .await before latch ∧ s₁.snapshots.count = s.snapshots.count ∧
        s₁.snapshots.WillCountDown k latch ∧
        ∃ come, (s₁.snapshots.snapshot k).toCome = come + 1 := by
      have hwill' := hwill
      unfold Snapshots.WillCountDown at hwill'
      cases hpc : s.snapshots.snapshot k with
      | latched =>
        obtain ⟨u, hu⟩ := (hplaced.latched k).1 hpc
        have hut : t ≠ u := by
          rintro rfl
          rw [ht] at hu
          cases hu
        rw [hpc] at hwill'
        refine ⟨[.step u], { s.goTo u .idle with snapshots := s.snapshots.moveTo k .working },
          by simp [Lts.exec, lts, stepCaller, hu], by simp,
          (Function.update_of_ne hut ..).trans ht, rfl, ?_, 3, ?_⟩
        · rwa [Snapshots.WillCountDown, Snapshots.moveTo_self]
        · rw [Snapshots.moveTo_self]
          rfl
      | working | release | readLatch | countDown =>
        exact ⟨[], s, rfl, by simp, ht, rfl, hwill, _, by rw [hpc]; rfl⟩
      | unclaimed | claimed | done | refused =>
        rw [hpc] at hwill'
        exact hwill'.elim
    obtain ⟨n, s₂, htasks, hcaller₂, hcount₂⟩ := runs_task hwill₁ hcome
    have hdown : s₂.snapshots.count latch = 0 := by
      have hle := hplaced.count latch
      rw [hcount₂, hcount]
      omega
    refine ⟨first ++ (List.replicate n (.task k) ++ [.step t]), s₂.goTo t (.returned before),
      fun a ha => ?_, ?_, Function.update_self ..⟩
    · rcases List.mem_append.1 ha with ha | ha
      · exact hnot a ha
      · rcases List.mem_append.1 ha with ha | ha
        · rw [List.eq_of_mem_replicate ha]
          simp
        · rw [List.mem_singleton.1 ha]
          simp
    · rw [lts.exec_append, hfirst, Option.bind_some, lts.exec_append, htasks, Option.bind_some]
      have ht₂ : s₂.caller t = .await before latch := by rw [hcaller₂, hcaller]
      simp [Lts.exec, lts, stepCaller, ht₂, hdown]

/-- A thread waits for a snapshot; before the task of the snapshot has read the field, another
thread claims the next snapshot and makes its latch, which the task then counts down. -/
def replacesLatch : List (Action (Fin 3)) :=
  [.createSnapshot 0, .step 0, .step 0, .step 0, .waitForSnapshotToComplete 1, .step 1, .step 1,
    .task 0, .task 0, .createSnapshot 2, .step 2, .step 2, .task 0, .task 0]

/-- The snapshot is done, and the thread that waits for it is blocked for good. -/
theorem released_iff_replacesLatch :
    ∃ s, lts.exec {} replacesLatch = some s ∧ s.snapshots.snapshot 0 = .done ∧
      ¬∃ actions' s', (∀ a ∈ actions', a ≠ .interrupt 1) ∧ lts.exec s actions' = some s' ∧
        s'.caller 1 = .returned 1 := by
  have hrun : (lts.exec {} replacesLatch).any (fun s : Handshake (Fin 3) => decide
      (s.caller 1 = .await 1 1 ∧ s.snapshots.count 1 = 1 ∧ s.snapshots.latch = 2 ∧
        s.snapshots.claims = 2 ∧ s.snapshots.snapshot 0 = .done ∧
        s.snapshots.snapshot 1 = .latched)) = true := by
    decide +kernel
  obtain ⟨s, hs, hafter⟩ := (Option.any_eq_true _ _).1 hrun
  obtain ⟨hwaits, hcount, hlatch, hclaims, hdone, hlatched⟩ := of_decide_eq_true hafter
  refine ⟨s, hs, hdone, ?_⟩
  rw [released_iff hs hwaits (by rw [hcount]; exact Nat.one_ne_zero)]
  rintro ⟨k, hwill⟩
  have hplaced : s.Placed :=
    lts.exec_invariant Placed (fun _ _ _ hi hs => hi.step hs) placed_initial hs
  unfold Snapshots.WillCountDown at hwill
  match k with
  | 0 =>
    rw [hdone] at hwill
    exact hwill
  | 1 =>
    rw [hlatched, hlatch] at hwill
    cases hwill
  | k + 2 =>
    rw [hplaced.unclaimed (k + 2) (by omega)] at hwill
    exact hwill

/-! ## In turn every call returns -/

/-- The steps that an action brings: those of a call that begins, and one for the beginning. -/
def Action.brings : Action T → ℕ
  | .createSnapshot _ => 8
  | .waitForSnapshotToComplete _ => 4
  | .step _ | .refuse _ | .interrupt _ | .task _ => 0

/-- What is left of the calls and of the tasks. -/
def left [Fintype T] (s : Handshake T) : ℕ :=
  ∑ t, (s.caller t).toCome + ∑ k ∈ Finset.range s.snapshots.claims, (s.snapshots.snapshot k).toCome

variable [Fintype T]

/-- A thread goes on. -/
theorem left_goTo (s : Handshake T) (t : T) (pc : CallerPc) :
    (s.goTo t pc).left + (s.caller t).toCome = s.left + pc.toCome := by
  have hsum := Finset.sum_update_add (Finset.mem_univ t) CallerPc.toCome s.caller pc
  have hgoTo : (s.goTo t pc).left = ∑ u, (Function.update s.caller t pc u).toCome +
    ∑ k ∈ Finset.range s.snapshots.claims, (s.snapshots.snapshot k).toCome := rfl
  rw [hgoTo, left]
  omega

omit [DecidableEq T] in
/-- A snapshot that has been claimed goes on. -/
theorem left_snapshot (s : Handshake T) (ss : Snapshots) {k : ℕ} (pc : SnapshotPc)
    (hk : k < s.snapshots.claims)
    (hsnapshot : ss.snapshot = Function.update s.snapshots.snapshot k pc)
    (hclaims : ss.claims = s.snapshots.claims) :
    ({ s with snapshots := ss } : Handshake T).left + (s.snapshots.snapshot k).toCome =
      s.left + pc.toCome := by
  have hsum := Finset.sum_update_add (Finset.mem_range.2 hk) SnapshotPc.toCome
    s.snapshots.snapshot pc
  have hmove : ({ s with snapshots := ss } : Handshake T).left = ∑ u, (s.caller u).toCome +
      ∑ j ∈ Finset.range s.snapshots.claims,
        (Function.update s.snapshots.snapshot k pc j).toCome := by
    simp only [left, hclaims, hsnapshot]
  rw [hmove, left]
  omega

omit [DecidableEq T] in
/-- A new claim brings no step of a task. -/
theorem left_claim (s : Handshake T) :
    ({ s with snapshots := s.snapshots.claim } : Handshake T).left = s.left := by
  have hrange : ∑ k ∈ Finset.range (s.snapshots.claims + 1),
      (Function.update s.snapshots.snapshot s.snapshots.claims .claimed k).toCome =
        ∑ k ∈ Finset.range s.snapshots.claims, (s.snapshots.snapshot k).toCome := by
    rw [Finset.sum_range_succ, Function.update_self]
    refine (Nat.add_zero _).trans (Finset.sum_congr rfl fun k hk => ?_)
    rw [Function.update_of_ne (Nat.ne_of_lt (Finset.mem_range.1 hk))]
  show ∑ t, (s.caller t).toCome + _ = _
  rw [left, ← hrange]
  rfl

/-- A thread goes on together with the snapshot that it has claimed. -/
theorem Placed.left_goTo_snapshot (h : s.Placed) {k : ℕ} (hclaim : (s.caller t).claim = some k)
    (pc : CallerPc) (ss : Snapshots) (spc : SnapshotPc)
    (hsnapshot : ss.snapshot = Function.update s.snapshots.snapshot k spc)
    (hclaims : ss.claims = s.snapshots.claims) :
    ({ s.goTo t pc with snapshots := ss } : Handshake T).left +
        ((s.caller t).toCome + (s.snapshots.snapshot k).toCome) =
      s.left + (pc.toCome + spc.toCome) := by
  have hgoTo := left_goTo s t pc
  have hmove : ({ s.goTo t pc with snapshots := ss } : Handshake T).left +
      (s.snapshots.snapshot k).toCome = (s.goTo t pc).left + spc.toCome :=
    left_snapshot (s.goTo t pc) ss spc (h.claim_lt hclaim) hsnapshot hclaims
  omega

/-- A step takes from what is left. -/
theorem Placed.left_lt {a : Action T} (h : s.Placed) (hs : lts.step s a = some s') :
    s'.left < s.left + a.brings := by
  cases a with
  | createSnapshot t | waitForSnapshotToComplete t =>
    simp only [lts] at hs
    split at hs <;> cases hs
    rename_i hresting
    have hrest : (s.caller t).toCome = 0 := by
      cases hpc : s.caller t <;> rw [hpc] at hresting <;> first | rfl | cases hresting
    refine Nat.lt_of_le_of_lt (Nat.le_add_right _ (s.caller t).toCome) ?_
    rw [left_goTo]
    simp [CallerPc.toCome, Action.brings]
  | interrupt t =>
    simp only [lts] at hs
    split at hs <;> cases hs
    rename_i before l hpc
    have hgoTo := left_goTo s t .idle
    rw [hpc] at hgoTo
    simp only [CallerPc.toCome, Action.brings] at hgoTo ⊢
    omega
  | refuse t =>
    simp only [lts] at hs
    split at hs <;> cases hs
    rename_i k hpc
    have hboth := h.left_goTo_snapshot (by rw [hpc]; rfl) .idle (s.snapshots.moveTo k .refused)
      .refused rfl rfl
    rw [hpc, (h.latched k).2 ⟨t, hpc⟩] at hboth
    simp only [CallerPc.toCome, SnapshotPc.toCome, Action.brings] at hboth ⊢
    omega
  | step t =>
    simp only [lts, stepCaller] at hs
    have hgoTo := left_goTo s t
    cases hpc : s.caller t with
    | idle | returned =>
      rw [hpc] at hs
      cases hs
    | compareAndSet =>
      simp only [hpc] at hs hgoTo
      split at hs <;> cases hs
      · have hidle := hgoTo .idle
        simp only [CallerPc.toCome, Action.brings] at hidle ⊢
        omega
      · have hclaim := left_claim (s.goTo t (.newLatch s.snapshots.claims))
        have hnew := hgoTo (.newLatch s.snapshots.claims)
        simp only [CallerPc.toCome, Action.brings] at hnew ⊢
        rw [show ({ s.goTo t (.newLatch s.snapshots.claims) with snapshots := s.snapshots.claim } :
          Handshake T).left = _ from hclaim]
        omega
    | newLatch k =>
      simp only [hpc, Option.some.injEq] at hs
      subst hs
      have hboth := h.left_goTo_snapshot (by rw [hpc]; rfl) (.execute k) (s.snapshots.newLatch k)
        .latched rfl rfl
      rw [hpc, (h.claimed k).2 ⟨t, hpc⟩] at hboth
      simp only [CallerPc.toCome, SnapshotPc.toCome, Action.brings] at hboth ⊢
      omega
    | execute k =>
      simp only [hpc, Option.some.injEq] at hs
      subst hs
      have hboth := h.left_goTo_snapshot (by rw [hpc]; rfl) .idle (s.snapshots.moveTo k .working)
        .working rfl rfl
      rw [hpc, (h.latched k).2 ⟨t, hpc⟩] at hboth
      simp only [CallerPc.toCome, SnapshotPc.toCome, Action.brings] at hboth ⊢
      omega
    | get before =>
      simp only [hpc] at hs hgoTo
      split at hs <;> cases hs
      · have hread := hgoTo (.readLatch before)
        simp only [CallerPc.toCome, Action.brings] at hread ⊢
        omega
      · have hreturned := hgoTo (.returned before)
        simp only [CallerPc.toCome, Action.brings] at hreturned ⊢
        omega
    | readLatch before =>
      simp only [hpc, Option.some.injEq] at hs hgoTo
      subst hs
      have hawait := hgoTo (.await before s.snapshots.latch)
      simp only [CallerPc.toCome, Action.brings] at hawait ⊢
      omega
    | await before l =>
      simp only [hpc] at hs hgoTo
      split at hs <;> cases hs
      have hreturned := hgoTo (.returned before)
      simp only [CallerPc.toCome, Action.brings] at hreturned ⊢
      omega
  | task k =>
    obtain ⟨ss, htask, rfl⟩ := Option.map_eq_some_iff.1 hs
    obtain ⟨pc, hsnapshot, hcome, -, -, hclaims, -⟩ := Snapshots.task_eq_some htask
    have hk : k < s.snapshots.claims := h.lt fun hunclaimed => by
      rw [hunclaimed] at hcome
      cases hcome
    have hleft := left_snapshot s _ _ hk hsnapshot hclaims
    simp only [Action.brings]
    omega

omit [DecidableEq T] [Fintype T] in
/-- A task that is at a step can take it. -/
theorem task_isSome {k : ℕ} (hcome : (ss.snapshot k).toCome ≠ 0) : ∃ ss', ss.task k = some ss' := by
  unfold Snapshots.task
  cases hpc : ss.snapshot k with
  | working | release | readLatch | countDown => exact ⟨_, rfl⟩
  | unclaimed | claimed | latched | done | refused =>
    rw [hpc] at hcome
    exact absurd rfl hcome

omit [Fintype T] in
/-- A thread that is at a step can take it, unless it is blocked on a latch. -/
theorem stepCaller_isSome (hcome : (s.caller t).toCome ≠ 0)
    (hdown : ∀ before l, s.caller t = .await before l → s.snapshots.count l = 0) :
    ∃ s', lts.step s (.step t) = some s' := by
  simp only [lts, stepCaller]
  cases hpc : s.caller t with
  | idle | returned =>
    rw [hpc] at hcome
    exact absurd rfl hcome
  | newLatch | execute | readLatch => exact ⟨_, rfl⟩
  | compareAndSet | get =>
    simp only
    split <;> exact ⟨_, rfl⟩
  | await before l =>
    simp only [hdown before l hpc, if_true]
    exact ⟨_, rfl⟩

omit [Fintype T] in
/-- In turn, as long as a call or a task has a step before it, a step can be taken. -/
theorem Inv.goes_on (h : s.Inv) (hplaced : s.Placed)
    (hleft : (∃ t, (s.caller t).toCome ≠ 0) ∨ ∃ k, (s.snapshots.snapshot k).toCome ≠ 0) :
    ∃ a s', Action.brings a = 0 ∧ InTurn s a = true ∧ lts.step s a = some s' := by
  -- A task can always go on.
  by_cases htask : ∃ k, (s.snapshots.snapshot k).toCome ≠ 0
  · obtain ⟨k, hk⟩ := htask
    obtain ⟨ss, hss⟩ := task_isSome hk
    exact ⟨.task k, { s with snapshots := ss }, rfl, rfl, by simp [lts, hss]⟩
  have hdone : ∀ k, (s.snapshots.snapshot k).toCome = 0 := fun k =>
    not_not.1 fun hk => htask ⟨k, hk⟩
  -- Without a task at work, so can a thread that has a claim in its hands.
  by_cases hhands : ∃ t k, (s.caller t).claim = some k
  · obtain ⟨t, k, hk⟩ := hhands
    have hcome : (s.caller t).toCome ≠ 0 := by
      cases hpc : s.caller t <;> rw [hpc] at hk <;> first | exact Nat.succ_ne_zero _ | cases hk
    obtain ⟨s', hs'⟩ := stepCaller_isSome hcome fun before l hpc => by
      rw [hpc] at hk
      cases hk
    refine ⟨.step t, s', rfl, ?_, hs'⟩
    cases hpc : s.caller t with
    | newLatch k =>
      simp only [InTurn, hpc, decide_eq_true_eq]
      intro j _ hj
      have hj' := hdone j
      rw [hj] at hj'
      cases hj'
    | execute k => simp only [InTurn, hpc]
    | _ =>
      rw [hpc] at hk
      cases hk
  -- Then no latch is still to be made, and no task to be handed over.
  have hnone : ∀ k, s.snapshots.snapshot k ≠ .claimed ∧ s.snapshots.snapshot k ≠ .latched := by
    refine fun k => ⟨fun hk => ?_, fun hk => ?_⟩
    · obtain ⟨t, ht⟩ := (hplaced.claimed k).1 hk
      exact hhands ⟨t, k, by rw [ht]; rfl⟩
    · obtain ⟨t, ht⟩ := (hplaced.latched k).1 hk
      exact hhands ⟨t, k, by rw [ht]; rfl⟩
  obtain ⟨t, ht⟩ := hleft.resolve_right htask
  obtain ⟨s', hs'⟩ := stepCaller_isSome ht fun before l hpc => by
    -- The task that would count the latch down would be at work, or still to be handed over.
    by_contra hup
    obtain ⟨k, -, hwill⟩ := h.sound.blocked t before l hpc hup
    unfold Snapshots.WillCountDown at hwill
    have hcome := hdone k
    cases hk : s.snapshots.snapshot k with
    | latched => exact (hnone k).2 hk
    | working | release | readLatch | countDown =>
      rw [hk] at hcome
      cases hcome
    | unclaimed | claimed | done | refused =>
      rw [hk] at hwill
      exact hwill
  refine ⟨.step t, s', rfl, ?_, hs'⟩
  cases hpc : s.caller t with
  | newLatch k => exact absurd ⟨t, k, by rw [hpc]; rfl⟩ hhands
  | readLatch before =>
    simp only [InTurn, hpc, decide_eq_true_eq]
    exact fun k _ => (hnone k).1
  | idle | compareAndSet | execute | get | await | returned => simp only [InTurn, hpc]

omit [DecidableEq T] [Fintype T] in
/-- The invariant holds before the first call. -/
theorem inv_initial : Inv ({} : Handshake T) := by
  refine ⟨⟨fun _ _ => rfl, nofun, nofun, nofun, rfl, .inr ⟨rfl, nofun⟩, rfl, fun k hk => ?_, nofun,
    nofun⟩, fun _ => trivial, nofun⟩
  replace hk : k + 1 < 1 := hk
  omega

/-- The work of the runs in turn. -/
def work (T : Type) [DecidableEq T] [Fintype T] :
    (lts (T := T)).Work fun s a => InTurn s a = true where
  inv s := s.Inv ∧ s.Placed
  left := left
  brings := Action.brings
  step h hturn hs := ⟨⟨h.1.step hturn hs, h.2.step hs⟩, h.2.left_lt hs⟩
  next {s} h hleft := by
    refine h.1.goes_on h.2 ?_
    by_contra hnone
    rw [not_or] at hnone
    obtain ⟨hcallers, htasks⟩ := hnone
    refine hleft (Nat.add_eq_zero_iff.2 ⟨Finset.sum_eq_zero fun t _ => ?_,
      Finset.sum_eq_zero fun k _ => ?_⟩)
    · exact not_not.1 fun ht => hcallers ⟨t, ht⟩
    · exact not_not.1 fun hk => htasks ⟨k, hk⟩

/-! ## The steps of one call -/

/-- The thread that begins a call. -/
def Action.begins : Action T → Option T
  | .createSnapshot t | .waitForSnapshotToComplete t => some t
  | .step _ | .refuse _ | .interrupt _ | .task _ => none

/-- The thread that takes a step of its call. -/
def Action.steps : Action T → Option T
  | .step t | .refuse t | .interrupt t => some t
  | .createSnapshot _ | .waitForSnapshotToComplete _ | .task _ => none

omit [Fintype T] in
/-- What a step does to the threads: one begins a call, one goes on, or it is a step of a task. -/
theorem step_caller {a : Action T} (hs : lts.step s a = some s') :
    (∃ t pc, a.begins = some t ∧ a.steps = none ∧ pc.own ≤ 3 ∧
        s'.caller = Function.update s.caller t pc) ∨
      (∃ t pc, a.begins = none ∧ a.steps = some t ∧ pc.own < (s.caller t).own ∧
        s'.caller = Function.update s.caller t pc) ∨
      a.begins = none ∧ a.steps = none ∧ s'.caller = s.caller := by
  cases a with
  | createSnapshot t | waitForSnapshotToComplete t =>
    simp only [lts] at hs
    split at hs <;> cases hs
    exact .inl ⟨t, _, rfl, rfl, Nat.le_refl _, rfl⟩
  | interrupt t | refuse t =>
    simp only [lts] at hs
    split at hs <;> cases hs
    rename_i hpc
    exact .inr (.inl ⟨t, .idle, rfl, rfl, by rw [hpc]; exact Nat.zero_lt_one, rfl⟩)
  | step t =>
    simp only [lts, stepCaller] at hs
    have hgo : ∀ pc : CallerPc, pc.own < (s.caller t).own →
        s'.caller = Function.update s.caller t pc →
        ∃ t' pc, (Action.step t).begins = none ∧ (Action.step t).steps = some t' ∧
          pc.own < (s.caller t').own ∧ s'.caller = Function.update s.caller t' pc :=
      fun pc hlt hcaller => ⟨t, pc, rfl, rfl, hlt, hcaller⟩
    refine .inr (.inl ?_)
    cases hpc : s.caller t with
    | idle | returned =>
      rw [hpc] at hs
      cases hs
    | compareAndSet | get before | await before l =>
      simp only [hpc] at hs
      split at hs <;> cases hs <;> exact hgo _ (by rw [hpc]; simp [CallerPc.own]) rfl
    | newLatch k | execute k | readLatch before =>
      simp only [hpc, Option.some.injEq] at hs
      subst hs
      exact hgo _ (by rw [hpc]; simp [CallerPc.own]) rfl
  | task k =>
    obtain ⟨ss, -, rfl⟩ := Option.map_eq_some_iff.1 hs
    exact .inr (.inr ⟨rfl, rfl, rfl⟩)

omit [Fintype T] in
/-- A call takes no more than three steps after the one that begins it, in turn or not: so many are
the steps of a thread in a part of a run in which it begins no call. -/
theorem countP_steps_le {actions part : List (Action T)} (h : lts.exec {} actions = some s)
    (hpart : part <:+: actions) (t : T) (hcall : ∀ a ∈ part, a.begins ≠ some t) :
    part.countP (fun a => decide (a.steps = some t)) ≤ 3 := by
  obtain ⟨-, s₁, s₂, -, hexec⟩ := lts.exec_of_infix hpart h
  have hstep : ∀ {s s' : Handshake T} {a}, True → True → lts.step s a = some s' →
      True ∧ (s'.caller t).own + (if decide (a.steps = some t) = true then 1 else 0) ≤
        (s.caller t).own + (if a.begins = some t then 3 else 0) := by
    intro s s' a _ _ hs
    refine ⟨trivial, ?_⟩
    rcases step_caller hs with ⟨u, pc, hbegins, hsteps, hown, hcaller⟩ |
      ⟨u, pc, hbegins, hsteps, hown, hcaller⟩ | ⟨hbegins, hsteps, hcaller⟩ <;>
      rw [hbegins, hsteps, hcaller]
    · by_cases hu : t = u
      · subst hu
        simpa using Nat.le_add_left_of_le hown
      · simp [Function.update_of_ne hu, Ne.symm hu]
    · by_cases hu : t = u
      · subst hu
        simpa using hown
      · simp [Function.update_of_ne hu, Ne.symm hu]
    · simp
  obtain ⟨-, hle⟩ := lts.countP_le (fun s => (s.caller t).own)
    (fun a => if a.begins = some t then 3 else 0) (fun a => decide (a.steps = some t)) hstep trivial
    (lts.guarded_true s₁ part) hexec
  have hbrings : (part.map fun a => if a.begins = some t then 3 else 0).sum = 0 := by
    refine List.sum_eq_zero fun x hx => ?_
    obtain ⟨a, ha, rfl⟩ := List.mem_map.1 hx
    exact if_neg (hcall a ha)
  have hstart : (s₁.caller t).own ≤ 3 := by cases s₁.caller t <;> simp [CallerPc.own]
  omega

omit [Fintype T] in
/-- What a step does to the snapshots: it is one of a task, which it takes nearer to its end, or it
takes none away from it. -/
theorem Placed.step_snapshot {a : Action T} (h : s.Placed) (hs : lts.step s a = some s') :
    (∃ k pc, a = .task k ∧ pc.remaining < (s.snapshots.snapshot k).remaining ∧
        s'.snapshots.snapshot = Function.update s.snapshots.snapshot k pc) ∨
      (∀ k, a ≠ .task k) ∧ (s'.snapshots.snapshot = s.snapshots.snapshot ∨
        ∃ k pc, pc.remaining ≤ (s.snapshots.snapshot k).remaining ∧
          s'.snapshots.snapshot = Function.update s.snapshots.snapshot k pc) := by
  cases a with
  | createSnapshot t | waitForSnapshotToComplete t | interrupt t =>
    simp only [lts] at hs
    split at hs <;> cases hs
    exact .inr ⟨by simp, .inl rfl⟩
  | refuse t =>
    simp only [lts] at hs
    split at hs <;> cases hs
    exact .inr ⟨by simp, .inr ⟨_, .refused, Nat.zero_le _, rfl⟩⟩
  | step t =>
    simp only [lts, stepCaller] at hs
    refine .inr ⟨by simp, ?_⟩
    cases hpc : s.caller t with
    | idle | returned =>
      rw [hpc] at hs
      cases hs
    | get before | await before l =>
      simp only [hpc] at hs
      split at hs <;> cases hs <;> exact .inl rfl
    | readLatch before =>
      simp only [hpc, Option.some.injEq] at hs
      subst hs
      exact .inl rfl
    | compareAndSet =>
      simp only [hpc] at hs
      split at hs <;> cases hs
      · exact .inl rfl
      · have hunclaimed := h.unclaimed _ (Nat.le_refl s.snapshots.claims)
        exact .inr ⟨_, .claimed, by rw [hunclaimed]; decide, rfl⟩
    | newLatch k =>
      simp only [hpc, Option.some.injEq] at hs
      subst hs
      have hclaimed := (h.claimed k).2 ⟨t, hpc⟩
      exact .inr ⟨k, .latched, by rw [hclaimed]; decide, rfl⟩
    | execute k =>
      simp only [hpc, Option.some.injEq] at hs
      subst hs
      have hlatched := (h.latched k).2 ⟨t, hpc⟩
      exact .inr ⟨k, .working, by rw [hlatched]; decide, rfl⟩
  | task k =>
    obtain ⟨ss, htask, rfl⟩ := Option.map_eq_some_iff.1 hs
    unfold Snapshots.task at htask
    cases hpc : s.snapshots.snapshot k with
    | working | release | readLatch | countDown =>
      rw [hpc] at htask
      cases htask
      exact .inl ⟨k, _, rfl, by rw [hpc]; simp [SnapshotPc.remaining], rfl⟩
    | unclaimed | claimed | latched | done | refused =>
      rw [hpc] at htask
      cases htask

omit [Fintype T] in
/-- The task of a snapshot takes no more than four steps, in turn or not. -/
theorem countP_task_le {actions : List (Action T)} (h : lts.exec {} actions = some s) (k : ℕ) :
    actions.countP (fun a => decide (a = .task k)) ≤ 4 := by
  have hstep : ∀ {s s' : Handshake T} {a}, s.Placed → True → lts.step s a = some s' →
      s'.Placed ∧ (s'.snapshots.snapshot k).remaining +
        (if decide (a = .task k) = true then 1 else 0) ≤ (s.snapshots.snapshot k).remaining + 0 := by
    intro s s' a hplaced _ hs
    refine ⟨hplaced.step hs, ?_⟩
    rcases hplaced.step_snapshot hs with ⟨j, pc, rfl, hlt, hsnapshot⟩ |
      ⟨hnot, hsnapshot | ⟨j, pc, hle, hsnapshot⟩⟩ <;> rw [hsnapshot]
    · by_cases hk : k = j
      · subst hk
        simpa using hlt
      · simp [Function.update_of_ne hk, Ne.symm hk]
    · simp [hnot k]
    · by_cases hk : k = j
      · subst hk
        simpa [hnot k] using hle
      · simp [Function.update_of_ne hk, hnot k]
  obtain ⟨-, hle⟩ := lts.countP_le (fun s => (s.snapshots.snapshot k).remaining) (fun _ => 0)
    (fun a => decide (a = .task k)) hstep placed_initial (lts.guarded_true {} actions) h
  have hstart : (({} : Handshake T).snapshots.snapshot k).remaining = 4 := rfl
  rw [hstart, List.map_const', List.sum_replicate, smul_zero] at hle
  omega

/-! ## The handshake ends -/

end Handshake

end Hacep
