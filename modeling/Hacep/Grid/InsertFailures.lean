import Hacep.Grid.InsertThreads
import Hacep.Lib.Progress
import Hacep.Session.Replica

/-!
# Inserts that throw

`KieSessionSaver.insert` on one node, called by any number of threads as in `InsertThreads`, where
any statement of the block may throw: the rebuild and the insertion as the code has it, and the
operations of the cache at any moment. What a statement that throws has done to the store stays, and
the thread goes to the end of the block, which gives the monitor up.

A serialized session that the node has found may have a snapshot pending, and then its rebuild waits
in `latch.await()` until the executor has run the snapshot, or is interrupted. The snapshots are
steps of their own, each from its first statement to its last. They are those that were handed over
before the inserts, so no further one replaces the latch of a snapshot that is waited for; the rules
of the node stay as they are.

Two things hold all the same. Every call comes to its end (`inserts_end`): it is a bounded number of
statements, and a thread is stopped only by a snapshot that is pending or by the monitor of another
thread, which can go on or is stopped by a snapshot. And a failure stays in its group
(`failures_apart`): where neither a call for a group nor the snapshot of its session has failed, the
group has come to its facts in the order of its lock, whatever has failed in other groups.
-/

namespace Hacep

open Java

variable {F T : Type} {E : KieEngine F}

/-- The statements that a thread in the block has before it at most. -/
def InsertBody.toCome : InsertBody → ℕ
  | .get => 6
  | .build => 5
  | .putNew _ | .rebuild _ => 4
  | .insert _ => 3
  | .put _ => 2
  | .leave => 1

/-- The statements that a call has before it at most. -/
def InsertPc.toCome : InsertPc → ℕ
  | .locking phase => 6 + phase.toCome
  | .inside _ body => body.toCome
  | .returned => 0

namespace SessionStore

section Attempt

variable [Fact F] (rm : RulesManager)

/-- One statement of the block, the point to which it takes the thread, and whether it has thrown. A
thread that waits for a snapshot has none. -/
def attempt (s : SessionStore E) (group : JString) (fact : F) :
    InsertBody → Option (SessionStore E × InsertBody × Bool)
  | .rebuild r =>
    match s.heap r with
    | some (.serialized v) =>
      -- The thread is in `latch.await()` until the snapshot has run.
      if v.saving then none
      else
        match HAKieSerializedSession.rebuild rm ⟨v, []⟩ with
        | .ok h fr =>
          some ((s.set r (.serialized fr.this)).alloc (.live h), .insert (.made s.created), false)
        | .error _ fr => some (s.set r (.serialized fr.this), .leave, true)
    | _ => none
  | .insert r =>
    match s.heap r with
    | some (.live h) =>
      match HAKieSession.insert rm fact ⟨h, []⟩ with
      | .ok _ fr => some (s.set r (.live fr.this), .put r, false)
      | .error _ fr => some (s.set r (.live fr.this), .leave, true)
    | _ => none
  | b => (s.body rm group fact b).map fun (s, b) => (s, b, false)

/-- What an operation of the cache leaves that throws, or a wait that is interrupted. A put throws
before or after its write, and does not commit. -/
def refuse (s : SessionStore E) (group : JString) (written : Bool) :
    InsertBody → Option (SessionStore E)
  | .get => some s
  | .putNew r | .put r =>
    some (if written then { s with cache := Function.update s.cache group (some r) } else s)
  | .rebuild r =>
    match s.heap r with
    | some (.serialized v) => if v.saving then some s else none
    | _ => none
  | .build | .insert _ | .leave => none

/-- The executor runs the snapshot that is pending for the session that was found for a group. What
it throws is logged: the second value says that it has. -/
def snapshot (s : SessionStore E) (group : JString) : Option (SessionStore E × Bool) :=
  match s.heap (.found group) with
  | some (.serialized v) =>
    if v.saving then
      some (s.set (.found group) (.serialized
          (finalFrame (HAKieSerializedSession.snapshotTask (E := E) rm ⟨v, []⟩)).this),
        !returned (HAKieSerializedSession.snapshotBody (E := E) rm ⟨v, []⟩))
    else none
  | _ => none

end Attempt

/-- A thread has the object of the kind that its next statement is about. -/
def Shape (s : SessionStore E) : InsertBody → Prop
  | .putNew r | .insert r | .put r => ∃ h, s.heap r = some (.live h)
  | .rebuild r => ∃ v, s.heap r = some (.serialized v)
  | .get | .build | .leave => True

variable {home home' : Ref → JString} {s s' : SessionStore E} {group : JString} {b b' : InsertBody}

/-- What another insert does to its own group leaves the objects of a thread of the kind they are. -/
theorem Shape.of_touches {group' : JString} (h : s.Shape b) (ht : Touches group' home home' s s')
    (hne : group ≠ group') (hb : ∀ r, b.session = some r → s.Has home group r) : s'.Shape b := by
  cases b with
  | get | build | leave => trivial
  | putNew r | rebuild r | insert r | put r =>
    rw [Shape, ht.heap group r (hb r rfl) hne]
    exact h

/-- An operation of the cache that throws touches its group only. -/
theorem refuse_frame {written : Bool} (hs : s.Owned home)
    (hb : ∀ r, b.session = some r → s.Has home group r) (h : s.refuse group written b = some s') :
    Touches group home home s s' ∧ s'.Owned home := by
  cases b with
  | build | insert | leave => cases h
  | get =>
    cases h
    exact ⟨.rfl, hs⟩
  | rebuild r =>
    simp only [refuse] at h
    split at h
    · split at h <;> cases h
      exact ⟨.rfl, hs⟩
    · cases h
  | putNew r | put r =>
    cases h
    split
    · refine ⟨⟨fun _ _ h => h, fun _ _ _ _ => rfl, fun g hne => Function.update_of_ne hne ..⟩,
        fun g r' hr' => ?_, hs.found, hs.fresh⟩
      have hr' : Function.update s.cache group (some r) g = some r' := hr'
      by_cases hg : g = group
      · subst hg
        rw [Function.update_self, Option.some.injEq] at hr'
        exact hr' ▸ hb r rfl
      · rw [Function.update_of_ne hg] at hr'
        exact hs.cached g r' hr'
    · exact ⟨.rfl, hs⟩

variable [Fact F] {rm : RulesManager} {fact : F} {failed : Bool}

/-- A statement that has not failed is the statement of an insert that does not throw. -/
theorem body_of_attempt (h : s.attempt rm group fact b = some (s', b', false)) :
    s.body rm group fact b = some (s', b') := by
  cases b with
  | rebuild r =>
    simp only [attempt] at h
    split at h
    · rename_i v hv
      split at h
      · cases h
      · rename_i hsaving
        split at h
        · rename_i k fr hrebuild
          cases h
          simp [body, hv, rebuild, hsaving, hrebuild]
        · cases h
    · cases h
  | insert r =>
    simp only [attempt] at h
    split at h
    · rename_i k hk
      split at h
      · rename_i fr hinsert
        cases h
        simp [body, hk, hinsert]
      · cases h
    · cases h
  | get | putNew | put =>
    obtain ⟨⟨s₁, b₁⟩, hbody, heq⟩ := Option.map_eq_some_iff.1 h
    cases heq
    exact hbody
  | build =>
    cases h
    rfl
  | leave => cases h

/-- A statement of an insert leaves the thread with an object of the kind that the next one is
about. -/
theorem shape_of_body (h : s.body rm group fact b = some (s', b')) : s'.Shape b' := by
  cases b with
  | get =>
    simp only [body] at h
    split at h
    · cases h
      trivial
    · split at h <;> cases h
      · exact ⟨_, ‹_›⟩
      · exact ⟨_, ‹_›⟩
  | build =>
    cases h
    exact ⟨{}, Function.update_self ..⟩
  | putNew r =>
    obtain ⟨s₁, hput, heq⟩ := Option.map_eq_some_iff.1 h
    cases heq
    obtain ⟨k, -, hk, -⟩ := put_spec hput
    exact ⟨k.commit, hk⟩
  | put r =>
    obtain ⟨s₁, hput, heq⟩ := Option.map_eq_some_iff.1 h
    cases heq
    trivial
  | rebuild r =>
    simp only [body] at h
    split at h
    · obtain ⟨⟨k, v⟩, -, heq⟩ := Option.map_eq_some_iff.1 h
      cases heq
      exact ⟨k, Function.update_self ..⟩
    · cases h
  | insert r =>
    simp only [body] at h
    split at h
    · split at h <;> cases h
      exact ⟨_, Function.update_self ..⟩
    · cases h
  | leave => cases h

/-- A statement, whether it throws or not, touches the group of its insert only, and leaves the
thread with an object of the group that is of the kind the next statement is about. -/
theorem attempt_frame (hs : s.Owned home) (hb : ∀ r, b.session = some r → s.Has home group r)
    (h : s.attempt rm group fact b = some (s', b', failed)) :
    ∃ home', Touches group home home' s s' ∧ s'.Owned home' ∧
      (∀ r, b'.session = some r → s'.Has home' group r) ∧ s'.Shape b' := by
  have hwrite : ∀ r v, s.Has home group r → ∃ home', Touches group home home' s (s.set r v) ∧
      (s.set r v).Owned home' := fun r v hr => ⟨home, touches_set hr v, hs.set hr v⟩
  cases failed with
  | false =>
    have hbody := body_of_attempt h
    obtain ⟨home', htouches, howned, hhas⟩ := body_frame hs hb hbody
    exact ⟨home', htouches, howned, hhas, shape_of_body hbody⟩
  | true =>
    cases b with
    | rebuild r =>
      simp only [attempt] at h
      split at h
      · split at h
        · cases h
        · split at h <;> cases h
          obtain ⟨home', htouches, howned⟩ := hwrite r _ (hb r rfl)
          exact ⟨home', htouches, howned, fun _ hr' => (by cases hr'), trivial⟩
      · cases h
    | insert r =>
      simp only [attempt] at h
      split at h
      · split at h
        · cases h
        · cases h
          obtain ⟨home', htouches, howned⟩ := hwrite r _ (hb r rfl)
          exact ⟨home', htouches, howned, fun _ hr' => (by cases hr'), trivial⟩
      · cases h
    | get | putNew | put =>
      obtain ⟨⟨s₁, b₁⟩, -, heq⟩ := Option.map_eq_some_iff.1 h
      cases heq
    | build | leave => cases h

omit [Fact F] in
/-- A snapshot of the session that a thread waits for is pending. -/
def Waits (s : SessionStore E) (b : InsertBody) : Prop :=
  ∃ r v, b = .rebuild r ∧ s.heap r = some (.serialized v) ∧ v.saving = true

/-- A thread in the block has a next statement, or waits for a snapshot. -/
theorem attempt_isSome (rm : RulesManager) (group : JString) (fact : F) (hs : s.Owned home)
    (hb : s.Shape b) (hleave : b ≠ .leave) :
    (∃ s' b' failed, s.attempt rm group fact b = some (s', b', failed)) ∨ s.Waits b := by
  cases b with
  | get =>
    cases hc : s.cache group with
    | none => exact .inl ⟨_, _, _, by simp [attempt, body, hc]; exact ⟨rfl, rfl, rfl⟩⟩
    | some r =>
      obtain ⟨v, hv⟩ := Option.isSome_iff_exists.1 (hs.cached group r hc).2
      cases v <;> exact .inl ⟨_, _, _, by simp [attempt, body, hc, hv]; exact ⟨rfl, rfl, rfl⟩⟩
  | build => exact .inl ⟨_, _, _, rfl⟩
  | putNew r | put r =>
    obtain ⟨k, hk⟩ := hb
    exact .inl ⟨_, _, _, by simp [attempt, body, put, hk]; exact ⟨rfl, rfl, rfl⟩⟩
  | rebuild r =>
    obtain ⟨v, hv⟩ := hb
    cases hsaving : v.saving with
    | true => exact .inr ⟨r, v, rfl, hv, hsaving⟩
    | false =>
      simp only [attempt, hv, hsaving, Bool.false_eq_true, if_false]
      split <;> exact .inl ⟨_, _, _, rfl⟩
  | insert r =>
    obtain ⟨k, hk⟩ := hb
    simp only [attempt, hk]
    split <;> exact .inl ⟨_, _, _, rfl⟩
  | leave => exact absurd rfl hleave

/-- A statement, whether it throws or not, takes its thread nearer to the end. -/
theorem attempt_toCome (h : s.attempt rm group fact b = some (s', b', failed)) :
    b'.toCome < b.toCome := by
  cases b with
  | get =>
    obtain ⟨⟨s₁, b₁⟩, hbody, heq⟩ := Option.map_eq_some_iff.1 h
    cases heq
    simp only [body] at hbody
    split at hbody
    · cases hbody
      simp [InsertBody.toCome]
    · split at hbody <;> cases hbody <;> simp [InsertBody.toCome]
  | build =>
    cases h
    simp [InsertBody.toCome]
  | putNew r | put r =>
    obtain ⟨⟨s₁, b₁⟩, hbody, heq⟩ := Option.map_eq_some_iff.1 h
    cases heq
    obtain ⟨s₂, -, heq⟩ := Option.map_eq_some_iff.1 hbody
    cases heq
    simp [InsertBody.toCome]
  | rebuild r =>
    simp only [attempt] at h
    split at h
    · split at h
      · cases h
      · split at h <;> cases h <;> simp [InsertBody.toCome]
    · cases h
  | insert r =>
    simp only [attempt] at h
    split at h
    · split at h <;> cases h <;> simp [InsertBody.toCome]
    · cases h
  | leave => cases h

omit [Fact F] in
theorem refuse_toCome {written : Bool} (h : s.refuse group written b = some s') :
    InsertBody.leave.toCome < b.toCome := by
  cases b with
  | get | putNew | put | rebuild => simp [InsertBody.toCome]
  | build | insert | leave => cases h

/-! ## The snapshots that are pending -/

omit [Fact F] in
/-- A snapshot is pending for the session that was found for the group. -/
def pending (s : SessionStore E) (group : JString) : Bool :=
  match s.heap (.found group) with
  | some (.serialized v) => v.saving
  | _ => false

omit [Fact F] in
theorem pending_iff : s.pending group = true ↔
    ∃ v, s.heap (.found group) = some (.serialized v) ∧ v.saving = true := by
  unfold pending
  split
  · rename_i v hv
    exact ⟨fun h => ⟨v, hv, h⟩, fun ⟨v', hv', h⟩ => by rw [hv] at hv'; cases hv'; exact h⟩
  · rename_i hnot
    exact ⟨fun h => (by cases h), fun ⟨v, hv, _⟩ => absurd hv (hnot v)⟩

omit [Fact F] in
/-- Writing a live session makes no serialized one. -/
theorem serialized_of_set {r r' : Ref} {k : HAKieSession E} {v : HAKieSerializedSession F}
    (h : (s.set r (.live k)).heap r' = some (.serialized v)) :
    s.heap r' = some (.serialized v) := by
  by_cases hr : r' = r
  · subst hr
    rw [set_self, Option.some.injEq] at h
    cases h
  · rwa [set_of_ne s hr] at h

omit [Fact F] in
theorem serialized_of_put {r r' : Ref} {v : HAKieSerializedSession F}
    (hput : s.put group r = some s') (h : s'.heap r' = some (.serialized v)) :
    s.heap r' = some (.serialized v) := by
  unfold put at hput
  split at hput <;> cases hput
  exact serialized_of_set h

/-- A statement makes no serialized session, and no snapshot pending. -/
theorem attempt_serialized {r : Ref} {v' : HAKieSerializedSession F}
    (h : s.attempt rm group fact b = some (s', b', failed))
    (hv' : s'.heap r = some (.serialized v')) :
    ∃ v, s.heap r = some (.serialized v) ∧ (v'.saving = true → v.saving = true) := by
  cases b with
  | get =>
    obtain ⟨⟨s₁, b₁⟩, hbody, heq⟩ := Option.map_eq_some_iff.1 h
    cases heq
    simp only [body] at hbody
    split at hbody
    · cases hbody
      exact ⟨v', hv', id⟩
    · split at hbody <;> cases hbody <;> exact ⟨v', hv', id⟩
  | build =>
    cases h
    exact ⟨v', serialized_of_set hv', id⟩
  | putNew r₁ | put r₁ =>
    obtain ⟨⟨s₁, b₁⟩, hbody, heq⟩ := Option.map_eq_some_iff.1 h
    cases heq
    obtain ⟨s₂, hput, heq⟩ := Option.map_eq_some_iff.1 hbody
    cases heq
    exact ⟨v', serialized_of_put hput hv', id⟩
  | rebuild r₁ =>
    simp only [attempt] at h
    split at h
    · rename_i v hv
      split at h
      · cases h
      · -- A rebuild without a pending snapshot leaves none.
        rename_i hsaving
        have hkeeps :
            (finalFrame (HAKieSerializedSession.rebuild (E := E) rm ⟨v, []⟩)).this.saving = false :=
          HAKieSerializedSession.keeps_notSaving ⟨v, []⟩ (Bool.eq_false_iff.2 hsaving)
        have hwritten : ∀ {fr : Frame (Delivery E.Message) (HAKieSerializedSession F)},
            fr.this.saving = false →
            (s.set r₁ (.serialized fr.this)).heap r = some (.serialized v') →
            ∃ v, s.heap r = some (.serialized v) ∧ (v'.saving = true → v.saving = true) := by
          intro fr hfr hset
          by_cases hr : r = r₁
          · subst hr
            rw [set_self, Option.some.injEq] at hset
            cases hset
            exact ⟨v, hv, fun h => by rw [hfr] at h; cases h⟩
          · rw [set_of_ne s hr] at hset
            exact ⟨v', hset, id⟩
        split at h
        · rename_i hrebuild
          cases h
          rw [hrebuild] at hkeeps
          exact hwritten hkeeps (serialized_of_set hv')
        · rename_i hrebuild
          cases h
          rw [hrebuild] at hkeeps
          exact hwritten hkeeps hv'
    · cases h
  | insert r₁ =>
    simp only [attempt] at h
    split at h
    · split at h <;> cases h <;> exact ⟨v', serialized_of_set hv', id⟩
    · cases h
  | leave => cases h

omit [Fact F] in
/-- An operation of the cache that throws writes no session. -/
theorem refuse_heap {written : Bool} (h : s.refuse group written b = some s') :
    s'.heap = s.heap := by
  cases b with
  | build | insert | leave => cases h
  | get =>
    cases h
    rfl
  | rebuild r =>
    simp only [refuse] at h
    split at h
    · split at h <;> cases h
      rfl
    · cases h
  | putNew r | put r =>
    cases h
    split <;> rfl

/-- A snapshot writes the session that was found for its group. It is not pending any more, and
where it does not fail the history stays. -/
theorem snapshot_spec (h : s.snapshot rm group = some (s', failed)) :
    ∃ v v', s.heap (.found group) = some (.serialized v) ∧ v.saving = true ∧
      v'.saving = false ∧ s' = s.set (.found group) (.serialized v') ∧
      ∀ H : FactHistory E, failed = false → v'.history H = v.history H := by
  unfold snapshot at h
  split at h
  · rename_i v hv
    split at h
    · rename_i hsaving
      cases h
      refine ⟨v, _, hv, hsaving, ?_, rfl, fun H hfailed => ?_⟩
      · cases hbody : HAKieSerializedSession.snapshotBody (E := E) rm ⟨v, []⟩ <;>
          simp [HAKieSerializedSession.snapshotTask, tryCatchFinally, hbody, finalFrame]
      · cases hbody : HAKieSerializedSession.snapshotBody (E := E) rm ⟨v, []⟩ with
        | error e fr =>
          rw [hbody] at hfailed
          cases hfailed
        | ok u fr =>
          rw [HAKieSerializedSession.snapshotTask_of_ok hbody]
          exact (HAKieSerializedSession.snapshotBody_ok hbody).1
    · cases h
  · cases h

/-- The executor can run a snapshot that is pending. -/
theorem snapshot_isSome (rm : RulesManager) (h : s.pending group = true) :
    ∃ s' failed, s.snapshot rm group = some (s', failed) := by
  obtain ⟨v, hv, hsaving⟩ := pending_iff.1 h
  simp only [snapshot, hv, hsaving, if_true]
  exact ⟨_, _, rfl⟩

/-- A snapshot touches its group only. -/
theorem snapshot_frame (hs : s.Owned home) (h : s.snapshot rm group = some (s', failed)) :
    Touches group home home s s' ∧ s'.Owned home := by
  obtain ⟨v, v', hv, -, -, rfl, -⟩ := snapshot_spec h
  have hr : s.Has home group (.found group) := ⟨hs.found group, by rw [hv]; rfl⟩
  exact ⟨touches_set hr _, hs.set hr _⟩

/-- A snapshot leaves the live sessions as they are. -/
theorem snapshot_live (h : s.snapshot rm group = some (s', failed)) {r : Ref} {k : HAKieSession E}
    (hk : s.heap r = some (.live k)) : s'.heap r = some (.live k) := by
  obtain ⟨v, v', hv, -, -, rfl, -⟩ := snapshot_spec h
  have hr : r ≠ .found group := by
    rintro rfl
    rw [hv] at hk
    cases hk
  rwa [set_of_ne s hr]

/-- A snapshot leaves the serialized sessions serialized, with their history if it does not fail. -/
theorem snapshot_serialized (h : s.snapshot rm group = some (s', failed)) {r : Ref}
    {v : HAKieSerializedSession F} (hv : s.heap r = some (.serialized v)) :
    ∃ v', s'.heap r = some (.serialized v') ∧
      ∀ H : FactHistory E, failed = false → v'.history H = v.history H := by
  obtain ⟨v₀, v', hv₀, -, -, rfl, hhistory⟩ := snapshot_spec h
  by_cases hr : r = .found group
  · subst hr
    rw [hv₀] at hv
    cases hv
    exact ⟨v', Function.update_self .., hhistory⟩
  · exact ⟨v, by rwa [set_of_ne s hr], fun _ _ => rfl⟩

/-- A snapshot leaves a thread with an object of the kind its next statement is about. -/
theorem Shape.of_snapshot (hb : s.Shape b) (h : s.snapshot rm group = some (s', failed)) :
    s'.Shape b := by
  cases b with
  | get | build | leave => trivial
  | putNew r | insert r | put r =>
    obtain ⟨k, hk⟩ := hb
    exact ⟨k, snapshot_live h hk⟩
  | rebuild r =>
    obtain ⟨v, hv⟩ := hb
    obtain ⟨v', hv', -⟩ := snapshot_serialized h hv
    exact ⟨v', hv'⟩

/-- A snapshot that does not fail leaves the history of every session. -/
theorem snapshot_history (H : FactHistory E) (h : s.snapshot rm group = some (s', false))
    (group' : JString) :
    Entry.history H (s'.session group') = Entry.history H (s.session group') := by
  have hcache : s'.cache = s.cache := by
    obtain ⟨_, _, -, -, -, rfl, -⟩ := snapshot_spec h
    rfl
  unfold session
  rw [hcache]
  cases hr : s.cache group' with
  | none => rfl
  | some r =>
    simp only [Option.bind_some]
    cases hheap : s.heap r with
    | none =>
      obtain ⟨v, v', hv, -, -, rfl, -⟩ := snapshot_spec h
      have hne : r ≠ .found group := by
        rintro rfl
        rw [hv] at hheap
        cases hheap
      rw [set_of_ne s hne, hheap]
    | some d =>
      cases d with
      | live k => rw [snapshot_live h hheap]
      | serialized v =>
        obtain ⟨v', hv', hhistory⟩ := snapshot_serialized h hheap
        rw [hv']
        exact hhistory H rfl

/-- A snapshot that does not fail leaves an insert where it is. -/
theorem progress_of_snapshot {H : FactHistory E} {before : List F} {group' : JString}
    (h : s.snapshot rm group = some (s', false)) (hp : s.Progress H group' before fact b) :
    s'.Progress H group' before fact b := by
  cases b with
  | get | leave => rw [Progress, snapshot_history H h]; exact hp
  | build => exact hp
  | putNew r | insert r | put r =>
    obtain ⟨k, hk, hhistory⟩ := hp
    exact ⟨k, snapshot_live h hk, hhistory⟩
  | rebuild r =>
    obtain ⟨v, hv, hhistory⟩ := hp
    obtain ⟨v', hv', hkept⟩ := snapshot_serialized h hv
    exact ⟨v', hv', (hkept H rfl).trans hhistory⟩

end SessionStore

/-- A node some of whose statements throw, the calls that have failed, and the groups whose session a
snapshot has failed to store. -/
structure FallibleNode (T : Type) (E : KieEngine F) extends SaverNode T E where
  failed : T → Bool := fun _ => false
  unsaved : JString → Bool := fun _ => false

namespace FallibleNode

/-- What happens on the node. -/
inductive Action (T : Type)
  /-- The statement that the thread is at. -/
  | statement (t : T)
  /-- The statement is an operation of the cache or a wait, and throws. -/
  | refuse (t : T) (written : Bool)
  /-- The executor runs the pending snapshot of the session of a group. -/
  | snapshot (group : JString)
  deriving DecidableEq, Repr

/-- The thread whose statement it is. -/
def Action.thread : Action T → Option T
  | .statement t | .refuse t _ => some t
  | .snapshot _ => none

section Lts

variable [DecidableEq T] [Fact F] (rm : RulesManager) (calls : T → Key × F)

/-- The node before the inserts. -/
def initial (sessions : JString → Entry E) : FallibleNode T E :=
  { SaverNode.initial sessions with }

/-- The thread goes on in the block. -/
def goOn (n : FallibleNode T E) (t : T) (lock : ℕ) (store : SessionStore E) (body : InsertBody)
    (failed : Bool) : FallibleNode T E :=
  { n with
    store := store
    pc := Function.update n.pc t (.inside lock body)
    failed := Function.update n.failed t (n.failed t || failed) }

/-- A snapshot of the session of a group has run. -/
def ran (n : FallibleNode T E) (group : JString) (store : SessionStore E) (failed : Bool) :
    FallibleNode T E :=
  { n with
    store := store
    unsaved := Function.update n.unsaved group (n.unsaved group || failed) }

/-- The node, one statement of one thread or one snapshot at a time. -/
def lts : Lts (FallibleNode T E) (Action T) where
  step n
    | .statement t =>
      match n.pc t with
      | .locking _ | .inside _ .leave | .returned =>
        ((SaverNode.lts rm calls).step n.toSaverNode t).map fun m => { n with toSaverNode := m }
      | .inside lock body =>
        (n.store.attempt rm (calls t).1.getGroup (calls t).2 body).map
          fun (store, body, failed) => n.goOn t lock store body failed
    | .refuse t written =>
      match n.pc t with
      | .inside lock body =>
        (n.store.refuse (calls t).1.getGroup written body).map
          fun store => n.goOn t lock store .leave true
      | .locking _ | .returned => none
    | .snapshot group =>
      (n.store.snapshot rm group).map fun (store, failed) => n.ran group store failed

end Lts

/-- What holds between any two statements. -/
structure Inv (calls : T → Key × F) (n : FallibleNode T E) : Prop where
  table : n.table.Inv (fun t => (calls t).1.getGroup) fun t => (n.pc t).phase
  accounted : n.table.Accounted fun t => (n.pc t).phase
  /-- A thread that has its lock is in the block, and one that is through has returned. -/
  locking : ∀ t phase, n.pc t = .locking phase → phase ≠ .done ∧ ∀ lock, phase ≠ .hold lock
  owned : ∃ home, n.store.Owned home ∧ ∀ t lock body, n.pc t = .inside lock body →
    ∀ r, body.session = some r → n.store.Has home (calls t).1.getGroup r
  shape : ∀ t lock body, n.pc t = .inside lock body → n.store.Shape body
  /-- Only the sessions that were found are serialized. -/
  found : ∀ r v, n.store.heap r = some (.serialized v) → ∃ group, r = .found group

variable {rm : RulesManager} {calls : T → Key × F} {n n' m : FallibleNode T E} {t : T}

/-- Two threads that are at work on one group are one thread. -/
theorem Inv.exclusive (h : Inv calls n) {t t' : T} {lock lock' : ℕ} {b b' : InsertBody}
    (ht : n.pc t = .inside lock b) (ht' : n.pc t' = .inside lock' b')
    (hgroup : (calls t).1.getGroup = (calls t').1.getGroup) : t = t' := by
  have hphase : (n.pc t).phase = .hold lock := by rw [ht]; rfl
  have hphase' : (n.pc t').phase = .hold lock' := by rw [ht']; rfl
  exact h.table.exclusive hphase hphase' hgroup

variable [DecidableEq T]

/-- A step on the way to the lock, into the block, or out of it. -/
theorem Inv.lockStep (h : Inv calls n) (pc : InsertPc) {table : LockTable JString T}
    (hs : n.table.step t (calls t).1.getGroup (n.pc t).phase = some (table, pc.phase))
    (htable : m.table = table) (hstore : m.store = n.store) (hpc : m.pc = Function.update n.pc t pc)
    (hlocking : ∀ phase, pc = .locking phase → phase ≠ .done ∧ ∀ lock, phase ≠ .hold lock)
    (hinside : ∀ lock b, pc = .inside lock b → b = .get) : Inv calls m := by
  have hothers : ∀ t' ≠ t, (m.pc t').phase = (n.pc t').phase := fun t' hne => by
    rw [hpc, Function.update_of_ne hne]
  have hself : m.pc t = pc := by rw [hpc, Function.update_self]
  -- A thread in the block was there before, but for the one that enters it.
  have hold : ∀ t' lock b, m.pc t' = .inside lock b → n.pc t' = .inside lock b ∨ b = .get := by
    intro t' lock b ht'
    by_cases hne : t' = t
    · subst hne
      exact .inr (hinside lock b (hself ▸ ht'))
    · rw [hpc, Function.update_of_ne hne] at ht'
      exact .inl ht'
  constructor
  case table =>
    refine htable ▸ h.table.step (t := t) ?_ hothers
    rw [hself]
    exact hs
  case accounted =>
    refine htable ▸ h.accounted.step (t := t) (g := (calls t).1.getGroup) ?_ hothers
    rw [hself]
    exact hs
  case locking =>
    intro t' phase ht'
    by_cases hne : t' = t
    · subst hne
      exact hlocking phase (hself ▸ ht')
    · rw [hpc, Function.update_of_ne hne] at ht'
      exact h.locking t' phase ht'
  case owned =>
    obtain ⟨home, howned, hhas⟩ := h.owned
    rw [hstore]
    refine ⟨home, howned, fun t' lock b ht' r hr => ?_⟩
    rcases hold t' lock b ht' with ht' | rfl
    · exact hhas t' lock b ht' r hr
    · cases hr
  case shape =>
    intro t' lock b ht'
    rw [hstore]
    rcases hold t' lock b ht' with ht' | rfl
    · exact h.shape t' lock b ht'
    · trivial
  case found =>
    rw [hstore]
    exact h.found

/-- A thread goes on in the block: it touches its group only, on which no other thread is at work.
-/
theorem Inv.goOn (h : Inv calls n) {lock : ℕ} {b b' : InsertBody} {store : SessionStore E}
    (hpc : n.pc t = .inside lock b)
    (hframe : ∀ home, n.store.Owned home →
      (∀ r, b.session = some r → n.store.Has home (calls t).1.getGroup r) →
      ∃ home', SessionStore.Touches (calls t).1.getGroup home home' n.store store ∧
        store.Owned home' ∧
        (∀ r, b'.session = some r → store.Has home' (calls t).1.getGroup r) ∧ store.Shape b')
    (hserialized : ∀ r v, store.heap r = some (.serialized v) →
      ∃ v, n.store.heap r = some (.serialized v))
    (failed : Bool) : Inv calls (n.goOn t lock store b' failed) := by
  obtain ⟨home, howned, hhas⟩ := h.owned
  obtain ⟨home', htouches, howned', hhas', hshape'⟩ := hframe home howned (hhas t lock b hpc)
  have hphase : ∀ t', ((n.goOn t lock store b' failed).pc t').phase = (n.pc t').phase := by
    intro t'
    show (Function.update n.pc t _ t').phase = _
    by_cases hne : t' = t
    · subst hne
      rw [Function.update_self, hpc]
      rfl
    · rw [Function.update_of_ne hne]
  -- A thread in the block is this one, or one at work on another group.
  have hinside : ∀ t' lock' b₁, (n.goOn t lock store b' failed).pc t' = .inside lock' b₁ →
      t' = t ∧ b₁ = b' ∨
        n.pc t' = .inside lock' b₁ ∧ (calls t').1.getGroup ≠ (calls t).1.getGroup := by
    intro t' lock' b₁ ht'
    rcases SaverNode.inside_update ht' with ⟨rfl, hb⟩ | ⟨hne, ht'⟩
    · cases hb
      exact .inl ⟨rfl, rfl⟩
    · exact .inr ⟨ht', fun hgroup => hne (h.exclusive ht' hpc hgroup)⟩
  constructor
  case table =>
    simp only [hphase]
    exact h.table
  case accounted =>
    simp only [hphase]
    exact h.accounted
  case locking =>
    intro t' phase ht'
    by_cases hne : t' = t
    · subst hne
      rw [show (n.goOn t' lock store b' failed).pc t' = _ from Function.update_self ..] at ht'
      cases ht'
    · exact h.locking t' phase ((Function.update_of_ne hne ..).symm.trans ht')
  case owned =>
    refine ⟨home', howned', fun t' lock' b₁ ht' r hr => ?_⟩
    rcases hinside t' lock' b₁ ht' with ⟨rfl, rfl⟩ | ⟨ht', -⟩
    · exact hhas' r hr
    · exact htouches.keeps _ r (hhas t' lock' b₁ ht' r hr)
  case shape =>
    intro t' lock' b₁ ht'
    rcases hinside t' lock' b₁ ht' with ⟨rfl, rfl⟩ | ⟨ht', hne⟩
    · exact hshape'
    · exact (h.shape t' lock' b₁ ht').of_touches htouches hne (hhas t' lock' b₁ ht')
  case found =>
    intro r v hv
    obtain ⟨v₀, hv₀⟩ := hserialized r v hv
    exact h.found r v₀ hv₀

variable [Fact F]

omit [DecidableEq T] in
/-- A snapshot runs: it leaves every session of the kind it is. -/
theorem Inv.ran (h : Inv calls n) {group : JString} {store : SessionStore E} {failed : Bool}
    (hs : n.store.snapshot rm group = some (store, failed)) :
    Inv calls (n.ran group store failed) := by
  constructor
  case table => exact h.table
  case accounted => exact h.accounted
  case locking => exact h.locking
  case owned =>
    obtain ⟨home, howned, hhas⟩ := h.owned
    obtain ⟨htouches, howned'⟩ := SessionStore.snapshot_frame howned hs
    exact ⟨home, howned', fun t lock b ht r hr => htouches.keeps _ r (hhas t lock b ht r hr)⟩
  case shape => exact fun t lock b ht => (h.shape t lock b ht).of_snapshot hs
  case found =>
    obtain ⟨v₀, v₁, hv₀, -, -, rfl, -⟩ := SessionStore.snapshot_spec hs
    intro r v hv
    by_cases hr : r = .found group
    · exact ⟨group, hr⟩
    · exact h.found r v ((SessionStore.set_of_ne n.store hr _).symm.trans hv)

/-- What a step can be: one on the way to the lock, into the block or out of it, one in the block, or
a snapshot. -/
theorem step_cases {a : Action T} (h : (lts rm calls).step n a = some n') :
    (∃ t m, a = .statement t ∧ (SaverNode.lts rm calls).step n.toSaverNode t = some m ∧
        (∀ lock b, n.pc t = .inside lock b → b = .leave) ∧ n' = { n with toSaverNode := m }) ∨
      (∃ t lock b store b' failed, a = .statement t ∧ n.pc t = .inside lock b ∧ b ≠ .leave ∧
        n.store.attempt rm (calls t).1.getGroup (calls t).2 b = some (store, b', failed) ∧
        n' = n.goOn t lock store b' failed) ∨
      (∃ t written lock b store, a = .refuse t written ∧ n.pc t = .inside lock b ∧
        n.store.refuse (calls t).1.getGroup written b = some store ∧
        n' = n.goOn t lock store .leave true) ∨
      ∃ group store failed, a = .snapshot group ∧
        n.store.snapshot rm group = some (store, failed) ∧ n' = n.ran group store failed := by
  cases a with
  | statement t =>
    simp only [lts] at h
    cases hpc : n.pc t with
    | locking phase =>
      rw [hpc] at h
      obtain ⟨m, hm, rfl⟩ := Option.map_eq_some_iff.1 h
      exact .inl ⟨t, m, rfl, hm, fun lock b hb => (by rw [hpc] at hb; cases hb), rfl⟩
    | returned =>
      rw [hpc] at h
      obtain ⟨m, hm, rfl⟩ := Option.map_eq_some_iff.1 h
      exact .inl ⟨t, m, rfl, hm, fun lock b hb => (by rw [hpc] at hb; cases hb), rfl⟩
    | inside lock b =>
      rw [hpc] at h
      cases b with
      | leave =>
        obtain ⟨m, hm, rfl⟩ := Option.map_eq_some_iff.1 h
        refine .inl ⟨t, m, rfl, hm, fun lock' b hb => ?_, rfl⟩
        rw [hpc] at hb
        cases hb
        rfl
      | get | build | putNew | rebuild | insert | put =>
        obtain ⟨⟨store, b', failed⟩, hattempt, rfl⟩ := Option.map_eq_some_iff.1 h
        exact .inr (.inl ⟨t, lock, _, store, b', failed, rfl, hpc, by simp, hattempt, rfl⟩)
  | refuse t written =>
    simp only [lts] at h
    cases hpc : n.pc t with
    | locking | returned =>
      rw [hpc] at h
      cases h
    | inside lock b =>
      rw [hpc] at h
      obtain ⟨store, hrefuse, rfl⟩ := Option.map_eq_some_iff.1 h
      exact .inr (.inr (.inl ⟨t, written, lock, b, store, rfl, hpc, hrefuse, rfl⟩))
  | snapshot group =>
    obtain ⟨⟨store, failed⟩, hsnapshot, rfl⟩ := Option.map_eq_some_iff.1 h
    exact .inr (.inr (.inr ⟨group, store, failed, rfl, hsnapshot, rfl⟩))

/-- The steps on the way to the lock, into the block and out of it. -/
theorem lock_cases {m : SaverNode T E} (h : (SaverNode.lts rm calls).step n.toSaverNode t = some m)
    (hleave : ∀ lock b, n.pc t = .inside lock b → b = .leave) :
    (∃ phase table phase', n.pc t = .locking phase ∧
      n.table.step t (calls t).1.getGroup phase = some (table, phase') ∧
      (∀ lock, phase' ≠ .hold lock) ∧
      m = { n.toSaverNode with table := table, pc := Function.update n.pc t (.locking phase') }) ∨
    (∃ phase table lock, n.pc t = .locking phase ∧
      n.table.step t (calls t).1.getGroup phase = some (table, .hold lock) ∧
      m = { n.toSaverNode with
        table := table
        pc := Function.update n.pc t (.inside lock .get)
        acquired := n.acquired ++ [t] }) ∨
    ∃ lock table, n.pc t = .inside lock .leave ∧
      n.table.step t (calls t).1.getGroup (.hold lock) = some (table, .done) ∧
      m = { n.toSaverNode with table := table, pc := Function.update n.pc t .returned } := by
  rcases SaverNode.step_cases rm calls h with hlock | henter | ⟨lock, table, _, hpc, hs, rfl, rfl⟩ |
    ⟨lock, b, store, b', hpc, hbody, -⟩
  · exact .inl hlock
  · exact .inr (.inl henter)
  · exact .inr (.inr ⟨lock, table, hpc, hs, rfl⟩)
  · rw [hleave lock b hpc] at hbody
    cases hbody

/-- A step keeps the invariant. -/
theorem Inv.step {a : Action T} (h : Inv calls n) (hs : (lts rm calls).step n a = some n') :
    Inv calls n' := by
  rcases step_cases hs with ⟨t, m, -, hm, hleave, rfl⟩ |
    ⟨t, lock, b, store, b', failed, -, hpc, -, hattempt, rfl⟩ |
    ⟨t, written, lock, b, store, -, hpc, hrefuse, rfl⟩ | ⟨group, store, failed, -, hsnapshot, rfl⟩
  · rcases lock_cases hm hleave with ⟨phase, table, phase', hpc, hlock, hhold, rfl⟩ |
      ⟨phase, table, lock, hpc, hlock, rfl⟩ | ⟨lock, table, hpc, hlock, rfl⟩
    · have hnot := (h.locking t phase hpc).2
      refine h.lockStep (t := t) (.locking phase') (by rw [hpc]; exact hlock) rfl rfl rfl
        (fun p hp => ?_) (fun _ _ hb => by cases hb)
      cases hp
      exact ⟨(LockTable.step_toCome hlock hnot).2, hhold⟩
    · refine h.lockStep (t := t) (.inside lock .get) (by rw [hpc]; exact hlock) rfl rfl rfl
        (fun _ hp => by cases hp) (fun _ _ hb => ?_)
      cases hb
      rfl
    · exact h.lockStep (t := t) .returned (by rw [hpc]; exact hlock) rfl rfl rfl
        (fun _ hp => by cases hp) (fun _ _ hb => by cases hb)
  · refine h.goOn hpc (fun home hs hb => SessionStore.attempt_frame hs hb hattempt)
      (fun r v hv => ?_) failed
    obtain ⟨v₀, hv₀, -⟩ := SessionStore.attempt_serialized hattempt hv
    exact ⟨v₀, hv₀⟩
  · refine h.goOn hpc (fun home hs hb => ?_) (fun r v hv => ⟨v, ?_⟩) true
    · obtain ⟨htouches, howned⟩ := SessionStore.refuse_frame hs hb hrefuse
      exact ⟨home, htouches, howned, fun _ hr => (by cases hr), trivial⟩
    · rwa [← SessionStore.refuse_heap hrefuse]
  · exact h.ran hsnapshot

omit [DecidableEq T] [Fact F] in
/-- The invariant holds before the inserts. -/
theorem inv_initial {sessions : JString → Entry E} :
    Inv calls (initial sessions : FallibleNode T E) := by
  refine ⟨LockTable.Inv.start, fun _ _ h => (by cases h), fun t phase h => ?_,
    ⟨Ref.group, ⟨fun group r hr => ?_, fun _ => rfl, fun _ _ => rfl⟩,
      fun _ _ _ h => (by cases h)⟩, fun _ _ _ h => (by cases h), fun r v hv => ?_⟩
  · cases h
    exact ⟨by simp, by simp⟩
  · obtain ⟨v, hv, rfl⟩ := Option.map_eq_some_iff.1 hr
    refine ⟨rfl, ?_⟩
    show (sessions group).isSome = true
    rw [hv]
    rfl
  · cases r with
    | found group => exact ⟨group, rfl⟩
    | made number => cases hv

/-! ## Every call ends -/

/-- A statement takes its thread nearer to the end, and leaves the other threads where they are; a
snapshot leaves them all. -/
theorem step_toCome {a : Action T} (h : Inv calls n) (hs : (lts rm calls).step n a = some n')
    (t : T) :
    if a.thread = some t then (n'.pc t).toCome < (n.pc t).toCome else n'.pc t = n.pc t := by
  have hupdate : ∀ (t' : T) (pc : InsertPc), a.thread = some t' → pc.toCome < (n.pc t').toCome →
      n'.pc = Function.update n.pc t' pc →
      if a.thread = some t then (n'.pc t).toCome < (n.pc t).toCome else n'.pc t = n.pc t := by
    intro t' pc hthread hlt hpc
    rw [hthread, hpc]
    by_cases hne : t = t'
    · subst hne
      rwa [if_pos rfl, Function.update_self]
    · rw [if_neg fun h => hne (Option.some.inj h).symm, Function.update_of_ne hne]
  rcases step_cases hs with ⟨t', m, rfl, hm, hleave, rfl⟩ |
    ⟨t', lock, b, store, b', failed, rfl, hpc, -, hattempt, rfl⟩ |
    ⟨t', written, lock, b, store, rfl, hpc, hrefuse, rfl⟩ | ⟨group, store, failed, rfl, -, rfl⟩
  · rcases lock_cases hm hleave with ⟨phase, table, phase', hpc, hlock, -, rfl⟩ |
      ⟨phase, table, lock, hpc, hlock, rfl⟩ | ⟨lock, table, hpc, hlock, rfl⟩
    · have hlt := (LockTable.step_toCome hlock (h.locking t' phase hpc).2).1
      refine hupdate t' (.locking phase') rfl ?_ rfl
      rw [hpc]
      exact Nat.add_lt_add_left hlt 6
    · have hlt := (LockTable.step_toCome hlock (h.locking t' phase hpc).2).1
      refine hupdate t' (.inside lock .get) rfl ?_ rfl
      rw [hpc]
      exact Nat.add_lt_add_left hlt 6
    · refine hupdate t' .returned rfl ?_ rfl
      rw [hpc]
      exact Nat.zero_lt_one
  · refine hupdate t' (.inside lock b') rfl ?_ rfl
    rw [hpc]
    exact SessionStore.attempt_toCome hattempt
  · refine hupdate t' (.inside lock .leave) rfl ?_ rfl
    rw [hpc]
    exact SessionStore.refuse_toCome hrefuse
  · rw [if_neg (show ¬(Action.snapshot group).thread = some t from Option.some_ne_none t ∘ Eq.symm)]
    rfl

/-- No step makes a snapshot pending, and one that runs a snapshot has it done. -/
theorem step_pending {a : Action T} (hs : (lts rm calls).step n a = some n') (group : JString) :
    (n'.store.pending group = true → n.store.pending group = true) ∧
      (a = .snapshot group → n.store.pending group = true ∧ n'.store.pending group = false) := by
  rcases step_cases hs with ⟨t', m, rfl, hm, hleave, rfl⟩ |
    ⟨t', lock, b, store, b', failed, rfl, hpc, -, hattempt, rfl⟩ |
    ⟨t', written, lock, b, store, rfl, hpc, hrefuse, rfl⟩ |
    ⟨group', store, failed, rfl, hsnapshot, rfl⟩
  · refine ⟨fun hpending => ?_, fun h => (by cases h)⟩
    rcases lock_cases hm hleave with ⟨_, _, _, -, -, -, rfl⟩ | ⟨_, _, _, -, -, rfl⟩ |
      ⟨_, _, -, -, rfl⟩ <;> exact hpending
  · refine ⟨fun hpending => ?_, fun h => (by cases h)⟩
    obtain ⟨v', hv', hsaving⟩ := SessionStore.pending_iff.1 hpending
    obtain ⟨v, hv, hback⟩ := SessionStore.attempt_serialized hattempt hv'
    exact SessionStore.pending_iff.2 ⟨v, hv, hback hsaving⟩
  · refine ⟨fun hpending => ?_, fun h => (by cases h)⟩
    obtain ⟨v, hv, hsaving⟩ := SessionStore.pending_iff.1 hpending
    exact SessionStore.pending_iff.2 ⟨v, SessionStore.refuse_heap hrefuse ▸ hv, hsaving⟩
  · obtain ⟨v, v', hv, hsaving, hdone, rfl, -⟩ := SessionStore.snapshot_spec hsnapshot
    have hself : (n.store.set (.found group') (.serialized v')).pending group' = false := by
      unfold SessionStore.pending
      rwa [SessionStore.set_self]
    constructor
    · intro hpending
      by_cases hg : group = group'
      · subst hg
        exact SessionStore.pending_iff.2 ⟨v, hv, hsaving⟩
      · have hne : Ref.found group ≠ .found group' := fun h => hg (Ref.found.inj h)
        obtain ⟨v₁, hv₁, hsaving₁⟩ := SessionStore.pending_iff.1 hpending
        exact SessionStore.pending_iff.2
          ⟨v₁, (SessionStore.set_of_ne n.store hne _).symm.trans hv₁, hsaving₁⟩
    · rintro ⟨⟩
      exact ⟨SessionStore.pending_iff.2 ⟨v, hv, hsaving⟩, hself⟩

/-- A call takes at most ten statements, however the run goes on around it. -/
theorem countP_thread_le {sessions : JString → Entry E} {actions : List (Action T)}
    (h : (lts rm calls).exec (initial sessions) actions = some n) (t : T) :
    actions.countP (fun a => decide (a.thread = some t)) ≤ 10 := by
  have hstep : ∀ {n : FallibleNode T E} {a n'}, Inv calls n → True →
      (lts rm calls).step n a = some n' → Inv calls n' ∧
        (n'.pc t).toCome + (if decide (a.thread = some t) = true then 1 else 0) ≤
          (n.pc t).toCome + 0 := by
    intro n a n' hinv _ hs
    refine ⟨hinv.step hs, ?_⟩
    have htoCome := step_toCome hinv hs t
    by_cases hthread : a.thread = some t
    · simpa [hthread, Nat.succ_le_iff] using htoCome
    · rw [if_neg hthread] at htoCome
      simp [hthread, htoCome]
  obtain ⟨-, hle⟩ := (lts rm calls).countP_le (fun n => (n.pc t).toCome) (fun _ => 0)
    (fun a => decide (a.thread = some t)) hstep inv_initial
    ((lts rm calls).guarded_true (initial sessions) actions) h
  have hstart : ((initial sessions : FallibleNode T E).pc t).toCome = 10 := rfl
  rw [hstart, List.map_const', List.sum_replicate, smul_zero] at hle
  omega

/-- Nothing but a snapshot keeps a thread from going on: its statement is possible, or it waits for
the snapshot of its group, which is possible. -/
def GoesOn (rm : RulesManager) (calls : T → Key × F) (n : FallibleNode T E) (t : T) : Prop :=
  ((lts rm calls).step n (.statement t)).isSome = true ∨
    ∃ lock, n.pc t = .inside lock (.rebuild (.found (calls t).1.getGroup)) ∧
      ((lts rm calls).step n (.snapshot (calls t).1.getGroup)).isSome = true

/-- A snapshot that is pending can be run. -/
theorem snapshot_possible (rm : RulesManager) (calls : T → Key × F)
    {group : JString} (h : n.store.pending group = true) :
    ((lts rm calls).step n (.snapshot group)).isSome = true := by
  obtain ⟨store, failed, hsnapshot⟩ := SessionStore.snapshot_isSome rm h
  simp only [lts, hsnapshot, Option.map_some, Option.isSome_some]

/-- A thread in the block goes on. -/
theorem Inv.inside_goes_on (rm : RulesManager) (h : Inv calls n) {lock : ℕ} {b : InsertBody}
    (hpc : n.pc t = .inside lock b) : n.GoesOn rm calls t := by
  by_cases hleave : b = .leave
  · subst hleave
    refine .inl ?_
    simp only [lts, SaverNode.lts, hpc]
    rfl
  · obtain ⟨home, howned, hhas⟩ := h.owned
    rcases SessionStore.attempt_isSome rm (calls t).1.getGroup (calls t).2 howned
      (h.shape t lock b hpc) hleave with ⟨store, b', failed, hattempt⟩ | ⟨r, v, rfl, hv, hsaving⟩
    · refine .inl ?_
      cases b with
      | leave => exact absurd rfl hleave
      | get | build | putNew | rebuild | insert | put =>
        simp only [lts, hpc, hattempt]
        rfl
    · -- A session with a snapshot is one that was found, and for the group of the thread.
      obtain ⟨group, rfl⟩ := h.found r v hv
      have hgroup : group = (calls t).1.getGroup :=
        (howned.found group).symm.trans (hhas t lock _ hpc _ rfl).1
      subst hgroup
      have hpending := SessionStore.pending_iff.2 ⟨v, hv, hsaving⟩
      exact .inr ⟨lock, hpc, snapshot_possible rm calls hpending⟩

/-- A call that has not ended goes on, or waits for a monitor whose owner does. -/
theorem Inv.goes_on (rm : RulesManager) (h : Inv calls n) (ht : n.pc t ≠ .returned) :
    n.GoesOn rm calls t ∨ ∃ lock t', n.pc t = .locking (.wait lock) ∧
      n.table.owner lock = some t' ∧ n.GoesOn rm calls t' := by
  cases hpc : n.pc t with
  | returned => exact absurd hpc ht
  | inside lock b => exact .inl (h.inside_goes_on rm hpc)
  | locking phase =>
    rcases n.table.step_or_waits t (calls t).1.getGroup (h.locking t phase hpc).1 with
      ⟨table, phase', hstep⟩ | ⟨lock, t', rfl, howner⟩
    · refine .inl (.inl ?_)
      simp only [lts, SaverNode.lts, hpc, hstep, Option.map_some]
      rfl
    · refine .inr ⟨lock, t', rfl, howner, ?_⟩
      -- The owner holds the monitor, so it is in the block.
      have hhold : (n.pc t').phase = .hold lock := h.accounted lock t' howner
      cases hpc' : n.pc t' with
      | returned =>
        rw [hpc'] at hhold
        cases hhold
      | inside lock' b => exact h.inside_goes_on rm hpc'
      | locking phase =>
        rw [hpc'] at hhold
        exact absurd hhold ((h.locking t' phase hpc').2 lock)

/-- What is left to do for a call: its statements, and the snapshot of its group. -/
def left (calls : T → Key × F) (n : FallibleNode T E) (t : T) : ℕ :=
  (n.pc t).toCome + (n.store.pending (calls t).1.getGroup).toNat

/-- A step leaves no more to do for a call than there was, and less for the call whose statement or
whose snapshot it is. -/
theorem step_left {a : Action T} (h : Inv calls n) (hs : (lts rm calls).step n a = some n')
    (t : T) :
    n'.left calls t ≤ n.left calls t ∧
      (a.thread = some t ∨ a = .snapshot (calls t).1.getGroup →
        n'.left calls t < n.left calls t) := by
  have htoCome := step_toCome h hs t
  obtain ⟨hpending, hdone⟩ := step_pending hs (calls t).1.getGroup
  have hsnapshot : (n'.store.pending (calls t).1.getGroup).toNat ≤
      (n.store.pending (calls t).1.getGroup).toNat := Bool.toNat_le_toNat hpending
  unfold left
  by_cases hthread : a.thread = some t
  · rw [if_pos hthread] at htoCome
    exact ⟨by omega, fun _ => by omega⟩
  · rw [if_neg hthread] at htoCome
    rw [htoCome]
    refine ⟨by omega, fun hmine => ?_⟩
    obtain ⟨hbefore, hafter⟩ := hdone (hmine.resolve_left hthread)
    rw [hbefore, hafter]
    exact Nat.lt_succ_self _

/-- The work that is left of the calls, where the snapshots are those of their groups. -/
def work [Fintype T] (rm : RulesManager) (calls : T → Key × F) :
    (lts (E := E) rm calls).Work fun _ a => ∃ t, a.thread = some t ∨
      a = .snapshot (calls t).1.getGroup where
  inv := Inv calls
  left n := ∑ t, n.left calls t
  brings _ := 0
  step := by
    rintro n a n' h ⟨t, hmine⟩ hs
    exact ⟨h.step hs, Finset.sum_lt_sum (fun t _ => (step_left h hs t).1)
      ⟨t, Finset.mem_univ t, (step_left h hs t).2 hmine⟩⟩
  next {n} h hleft := by
    obtain ⟨t, -, ht⟩ := Finset.exists_ne_zero_of_sum_ne_zero hleft
    have hgoes : ∀ t, n.GoesOn rm calls t → ∃ a n', 0 = 0 ∧ (∃ t, Action.thread a = some t ∨
        a = .snapshot (calls t).1.getGroup) ∧ (lts rm calls).step n a = some n' := by
      rintro t (hs | ⟨-, -, hs⟩)
      · obtain ⟨n', hn'⟩ := Option.isSome_iff_exists.1 hs
        exact ⟨.statement t, n', rfl, ⟨t, .inl rfl⟩, hn'⟩
      · obtain ⟨n', hn'⟩ := Option.isSome_iff_exists.1 hs
        exact ⟨.snapshot _, n', rfl, ⟨t, .inr rfl⟩, hn'⟩
    by_cases hpc : n.pc t = .returned
    · -- The call is through, so it is its snapshot that is left.
      have hpending : n.store.pending (calls t).1.getGroup = true := by
        by_contra hnot
        rw [Bool.not_eq_true] at hnot
        exact ht (by rw [left, hpc, hnot]; rfl)
      obtain ⟨n', hn'⟩ := Option.isSome_iff_exists.1 (snapshot_possible rm calls hpending)
      exact ⟨.snapshot _, n', rfl, ⟨t, .inr rfl⟩, hn'⟩
    · rcases h.goes_on rm hpc with hs | ⟨-, t', -, -, hs⟩
      · exact hgoes t hs
      · exact hgoes t' hs

/-- In every run of any finite number of calls of `KieSessionSaver.insert` with any keys and facts,
whichever of their statements throw, and of the snapshots that are pending: no call takes more than
ten statements; a call that has not ended goes on, or waits for a monitor whose owner does, where a
thread that is in `latch.await()` goes on by the snapshot it waits for; when all have ended every
monitor is free; and to that end every run can be continued. -/
theorem inserts_end [Fintype T] {sessions : JString → Entry E} {actions : List (Action T)}
    (h : (lts rm calls).exec (initial sessions) actions = some n) :
    (∀ t, actions.countP (fun a => decide (a.thread = some t)) ≤ 10) ∧
    (∀ t, n.pc t ≠ .returned → n.GoesOn rm calls t ∨
      ∃ lock t', n.pc t = .locking (.wait lock) ∧ n.table.owner lock = some t' ∧
        n.GoesOn rm calls t') ∧
    ((∀ t, n.pc t = .returned) → ∀ lock, n.table.owner lock = none) ∧
    ∃ actions' n', (lts rm calls).exec n actions' = some n' ∧ ∀ t, n'.pc t = .returned := by
  have hinv : Inv calls n :=
    (lts rm calls).exec_invariant (Inv calls) (fun _ _ _ hi hs => hi.step hs) inv_initial h
  refine ⟨fun t => countP_thread_le h t, fun t ht => hinv.goes_on rm ht, fun hended lock => ?_, ?_⟩
  · cases howner : n.table.owner lock with
    | none => rfl
    | some t =>
      have hhold : (n.pc t).phase = .hold lock := hinv.accounted lock t howner
      rw [hended t] at hhold
      cases hhold
  · obtain ⟨actions', n', -, -, hn', -, hleft⟩ := (work (E := E) rm calls).exists_finish hinv
    refine ⟨actions', n', hn', fun t => ?_⟩
    have hzero : n'.left calls t = 0 :=
      (Finset.sum_eq_zero_iff.1 hleft) t (Finset.mem_univ t)
    rw [left, Nat.add_eq_zero_iff] at hzero
    cases hpc : n'.pc t with
    | returned => rfl
    | locking phase =>
      rw [hpc] at hzero
      simp [InsertPc.toCome] at hzero
    | inside lock b =>
      rw [hpc] at hzero
      cases b <;> cases hzero.1

/-- A call for a player and one for another, whose sessions are serialized ones. -/
def twoPlayersCalls (t : Bool) : Key × Reading :=
  (⟨jstr (if t then "other" else "player")⟩, if t then ⟨3⟩ else ⟨2⟩)

/-- Both sessions have buffered a fact, and a snapshot of the other player's is pending. -/
def twoSessions (group : JString) : Entry Recorder.engine :=
  let pending := decide (group = jstr "other")
  some (.serialized {
    saving := pending
    latch := pending.toNat
    version := jstr "1"
    size := 1
    buffer := [⟨1⟩] })

/-- The last put of the first call throws after it has written, and the second call waits for the
snapshot. -/
def putThrows : List (Action Bool) :=
  List.replicate 7 (.statement false) ++ [.refuse false true, .statement true, .statement false] ++
    List.replicate 4 (.statement true)

/-- The snapshot runs, and the second call goes on to its end. -/
def snapshotRuns : List (Action Bool) :=
  .snapshot (jstr "other") :: List.replicate 4 (.statement true)

/-- The second call is in `latch.await()`. -/
theorem inserts_end_putThrows :
    ∃ n, (lts (Recorder.manager (jstr "1")) twoPlayersCalls).exec (initial twoSessions) putThrows =
        some n ∧
      (lts (Recorder.manager (jstr "1")) twoPlayersCalls).step n (.statement true) = none ∧
      ∃ actions' n', (lts (Recorder.manager (jstr "1")) twoPlayersCalls).exec n actions' = some n' ∧
        ∀ t, n'.pc t = .returned := by
  have hrun : ((lts (Recorder.manager (jstr "1")) twoPlayersCalls).exec (initial twoSessions)
      putThrows).any (fun n =>
        ((lts (Recorder.manager (jstr "1")) twoPlayersCalls).step n (.statement true)).isNone) =
      true := by
    decide +kernel
  obtain ⟨n, hn, hwaits⟩ := (Option.any_eq_true _ _).1 hrun
  exact ⟨n, hn, Option.isNone_iff_eq_none.1 hwaits, (inserts_end hn).2.2.2⟩

/-! ## A failure stays in its group -/

omit [DecidableEq T] [Fact F] in
/-- No call for the group has failed, and no snapshot of its session. -/
def Clean (calls : T → Key × F) (n : FallibleNode T E) (group : JString) : Prop :=
  (∀ t, (calls t).1.getGroup = group → n.failed t = false) ∧ n.unsaved group = false

omit [Fact F] in
/-- A group that is clean after a step of one of its calls was clean before, and the step has not
failed. -/
theorem Clean.of_goOn {lock : ℕ} {store : SessionStore E} {b : InsertBody} {failed : Bool}
    {group : JString} (h : Clean calls (n.goOn t lock store b failed) group) :
    Clean calls n group ∧ ((calls t).1.getGroup = group → failed = false) := by
  have hself : ∀ t', (calls t').1.getGroup = group →
      Function.update n.failed t (n.failed t || failed) t' = false := h.1
  refine ⟨⟨fun t' ht' => ?_, h.2⟩, fun ht => ?_⟩
  · have hfailed := hself t' ht'
    by_cases hne : t' = t
    · subst hne
      rw [Function.update_self, Bool.or_eq_false_iff] at hfailed
      exact hfailed.1
    · rwa [Function.update_of_ne hne] at hfailed
  · have hfailed := hself t ht
    rw [Function.update_self, Bool.or_eq_false_iff] at hfailed
    exact hfailed.2

omit [DecidableEq T] [Fact F] in
/-- A group that is clean after a snapshot was clean before, and a snapshot of its session has not
failed. -/
theorem Clean.of_ran {store : SessionStore E} {failed : Bool} {group group' : JString}
    (h : Clean calls (n.ran group' store failed) group) :
    Clean calls n group ∧ (group = group' → failed = false) := by
  have hunsaved : Function.update n.unsaved group' (n.unsaved group' || failed) group = false := h.2
  by_cases hg : group = group'
  · subst hg
    rw [Function.update_self, Bool.or_eq_false_iff] at hunsaved
    exact ⟨⟨h.1, hunsaved.1⟩, fun _ => hunsaved.2⟩
  · rw [Function.update_of_ne hg] at hunsaved
    exact ⟨⟨h.1, hunsaved⟩, fun h => absurd h hg⟩

/-- What the groups that are clean have come to, and who has entered. -/
structure Content (calls : T → Key × F) (H : FactHistory E) (sessions : JString → Entry E)
    (n : FallibleNode T E) : Prop where
  nodup : n.acquired.Nodup
  acquired : ∀ t, t ∈ n.acquired ↔ n.hasEntered t
  /-- The thread at work on a clean group is the last that has entered. -/
  inside : ∀ t lock body, n.pc t = .inside lock body → n.Clean calls (calls t).1.getGroup →
    ∃ before, SaverNode.expected calls H sessions n.acquired (calls t).1.getGroup =
        before ++ [(calls t).2] ∧
      n.store.Progress H (calls t).1.getGroup before (calls t).2 body
  /-- A clean group on which no thread is at work is up to date. -/
  quiet : ∀ group, n.Clean calls group →
    (∀ t lock body, n.pc t = .inside lock body → (calls t).1.getGroup ≠ group) →
    Entry.history H (n.store.session group) = SaverNode.expected calls H sessions n.acquired group

variable {H : FactHistory E} {sessions : JString → Entry E}

omit [DecidableEq T] [Fact F] in
theorem content_initial : Content calls H sessions (initial sessions : FallibleNode T E) := by
  have hinv : SaverNode.Inv calls H sessions (SaverNode.initial sessions) := SaverNode.inv_initial
  exact ⟨hinv.nodup, hinv.acquired, fun t lock b ht _ => hinv.inside t lock b ht,
    fun group _ hg => hinv.quiet group hg⟩

omit [Fact F] in
/-- A step on the way to the lock. -/
theorem Content.lock (h : Content calls H sessions n) {phase phase' : LockPhase}
    {table : LockTable JString T} (hpc : n.pc t = .locking phase) :
    Content calls H sessions
      { n with table := table, pc := Function.update n.pc t (.locking phase') } := by
  -- The threads at work are the same before and after.
  have hinside : ∀ {t' lock b}, Function.update n.pc t (.locking phase') t' = .inside lock b →
      n.pc t' = .inside lock b := by
    intro t' lock b ht'
    rcases SaverNode.inside_update ht' with ⟨-, hnot⟩ | ⟨-, ht'⟩
    · cases hnot
    · exact ht'
  refine ⟨h.nodup, fun t' => ?_, fun t' lock b ht' => h.inside t' lock b (hinside ht'),
    fun group hclean hg => h.quiet group hclean fun t' lock b ht' => hg t' lock b ?_⟩
  · refine (h.acquired t').trans ?_
    by_cases hne : t' = t
    · subst hne
      simp [SaverNode.hasEntered, hpc]
    · exact (SaverNode.hasEntered_update rfl hne).symm
  · exact (Function.update_of_ne (SaverNode.ne_of_locking hpc ht') ..).trans ht'

omit [Fact F] in
/-- A thread enters the monitor of its group: no other thread is at work on the group. -/
theorem Content.enter (h : Content calls H sessions n) {phase : LockPhase} {lock : ℕ}
    {table : LockTable JString T} (hpc : n.pc t = .locking phase)
    (hothers : ∀ t' lock' b, n.pc t' = .inside lock' b →
      (calls t').1.getGroup ≠ (calls t).1.getGroup) :
    Content calls H sessions { n with
      table := table
      pc := Function.update n.pc t (.inside lock .get)
      acquired := n.acquired ++ [t] } := by
  have hnew : t ∉ n.acquired := by
    rw [h.acquired t]
    simp [SaverNode.hasEntered, hpc]
  constructor
  case nodup => simpa using h.nodup.concat hnew
  case acquired =>
    intro t'
    by_cases hne : t' = t
    · subst hne
      simp [SaverNode.hasEntered]
    · rw [SaverNode.hasEntered_update (n := n.toSaverNode) rfl hne, List.mem_append,
        List.mem_singleton, h.acquired t']
      simp [hne]
  case inside =>
    intro t' lock' b ht' hclean
    rcases SaverNode.inside_update ht' with ⟨rfl, hb⟩ | ⟨-, ht'⟩
    · -- The group was quiet, so the thread finds all that has been inserted into it.
      cases hb
      refine ⟨SaverNode.expected calls H sessions n.acquired (calls t').1.getGroup, ?_, ?_⟩
      · rw [SaverNode.expected_enter, if_pos rfl]
      · exact h.quiet _ hclean hothers
    · rw [SaverNode.expected_enter, if_neg (hothers t' lock' b ht').symm]
      exact h.inside t' lock' b ht' hclean
  case quiet =>
    intro group hclean hg
    have hne : (calls t).1.getGroup ≠ group := hg t lock .get (Function.update_self ..)
    rw [SaverNode.expected_enter, if_neg hne]
    refine h.quiet group hclean fun t' lock' b ht' => hg t' lock' b ?_
    exact (Function.update_of_ne (SaverNode.ne_of_locking hpc ht') ..).trans ht'

omit [Fact F] in
/-- A thread leaves the monitor of its group, which is up to date where it is clean. -/
theorem Content.leave (h : Content calls H sessions n) {lock : ℕ} {table : LockTable JString T}
    (hpc : n.pc t = .inside lock .leave) :
    Content calls H sessions
      { n with table := table, pc := Function.update n.pc t .returned } := by
  have hinside : ∀ {t' lock b}, Function.update n.pc t .returned t' = .inside lock b →
      n.pc t' = .inside lock b := by
    intro t' lock b ht'
    rcases SaverNode.inside_update ht' with ⟨-, hnot⟩ | ⟨-, ht'⟩
    · cases hnot
    · exact ht'
  refine ⟨h.nodup, fun t' => ?_, fun t' lock b ht' => h.inside t' lock b (hinside ht'),
    fun group hclean hg => ?_⟩
  · refine (h.acquired t').trans ?_
    by_cases hne : t' = t
    · subst hne
      simp [SaverNode.hasEntered, hpc]
    · exact (SaverNode.hasEntered_update rfl hne).symm
  · by_cases hgroup : (calls t).1.getGroup = group
    · -- The group that is left has come to what was expected.
      subst hgroup
      obtain ⟨before, hexpected, hprogress⟩ := h.inside t lock .leave hpc hclean
      exact hprogress.trans hexpected.symm
    · refine h.quiet group hclean fun t' lock' b ht' => ?_
      by_cases hne : t' = t
      · exact hne ▸ hgroup
      · exact hg t' lock' b ((Function.update_of_ne hne ..).trans ht')

omit [Fact F] in
/-- A thread goes on in the block: it touches its group only, and takes the session of a clean group
one step further. -/
theorem Content.goOn (h : Content calls H sessions n) (hinv : Inv calls n) {lock : ℕ}
    {b b' : InsertBody} {store : SessionStore E} {failed : Bool} (hpc : n.pc t = .inside lock b)
    (hframe : ∀ home, n.store.Owned home →
      (∀ r, b.session = some r → n.store.Has home (calls t).1.getGroup r) →
      ∃ home', SessionStore.Touches (calls t).1.getGroup home home' n.store store)
    (hprogress : failed = false → ∀ before,
      n.store.Progress H (calls t).1.getGroup before (calls t).2 b →
      store.Progress H (calls t).1.getGroup before (calls t).2 b') :
    Content calls H sessions (n.goOn t lock store b' failed) := by
  obtain ⟨home, howned, hhas⟩ := hinv.owned
  obtain ⟨home', htouches⟩ := hframe home howned (hhas t lock b hpc)
  refine ⟨h.nodup, fun t' => ?_, fun t' lock' b₁ ht' hclean => ?_, fun group hclean hg => ?_⟩
  · refine (h.acquired t').trans ?_
    by_cases hne : t' = t
    · subst hne
      simp [SaverNode.hasEntered, goOn, hpc]
    · exact (SaverNode.hasEntered_update rfl hne).symm
  · obtain ⟨hbefore, hfailed⟩ := hclean.of_goOn
    rcases SaverNode.inside_update ht' with ⟨rfl, hb⟩ | ⟨hne, ht'⟩
    · cases hb
      obtain ⟨before, hexpected, hp⟩ := h.inside t' lock b hpc hbefore
      exact ⟨before, hexpected, hprogress (hfailed rfl) before hp⟩
    · obtain ⟨before, hexpected, hp⟩ := h.inside t' lock' b₁ ht' hbefore
      exact ⟨before, hexpected, SessionStore.progress_of_touches htouches howned
        (fun hgroup => hne (hinv.exclusive ht' hpc hgroup)) (hhas t' lock' b₁ ht') hp⟩
  · have hne : group ≠ (calls t).1.getGroup := (hg t lock b' (Function.update_self ..)).symm
    show Entry.history H (store.session group) = _
    rw [htouches.session howned hne]
    refine h.quiet group hclean.of_goOn.1 fun t' lock' b₁ ht' => ?_
    by_cases hne' : t' = t
    · subst hne'
      exact hne.symm
    · exact hg t' lock' b₁ ((Function.update_of_ne hne' ..).trans ht')

omit [DecidableEq T] in
/-- A snapshot runs: it touches its group only, and keeps the history of the session of a clean
group. -/
theorem Content.ran (h : Content calls H sessions n) (hinv : Inv calls n) {group : JString}
    {store : SessionStore E} {failed : Bool}
    (hs : n.store.snapshot rm group = some (store, failed)) :
    Content calls H sessions (n.ran group store failed) := by
  obtain ⟨home, howned, hhas⟩ := hinv.owned
  obtain ⟨htouches, -⟩ := SessionStore.snapshot_frame howned hs
  refine ⟨h.nodup, h.acquired, fun t lock b ht hclean => ?_, fun g hclean hg => ?_⟩
  · obtain ⟨hbefore, hfailed⟩ := hclean.of_ran
    obtain ⟨before, hexpected, hp⟩ := h.inside t lock b ht hbefore
    refine ⟨before, hexpected, ?_⟩
    by_cases hgroup : (calls t).1.getGroup = group
    · cases hfailed hgroup
      exact SessionStore.progress_of_snapshot hs hp
    · exact SessionStore.progress_of_touches htouches howned hgroup (hhas t lock b ht) hp
  · obtain ⟨hbefore, hfailed⟩ := hclean.of_ran
    refine Eq.trans ?_ (h.quiet g hbefore hg)
    show Entry.history H (store.session g) = _
    by_cases hgroup : g = group
    · cases hfailed hgroup
      exact SessionStore.snapshot_history H hs g
    · rw [htouches.session howned hgroup]

/-- A step keeps what the clean groups have come to. -/
theorem Content.step {a : Action T} (h : Content calls H sessions n) (hinv : Inv calls n)
    (hs : (lts rm calls).step n a = some n') : Content calls H sessions n' := by
  rcases step_cases hs with ⟨t, m, -, hm, hleave, rfl⟩ |
    ⟨t, lock, b, store, b', failed, -, hpc, -, hattempt, rfl⟩ |
    ⟨t, written, lock, b, store, -, hpc, hrefuse, rfl⟩ | ⟨group, store, failed, -, hsnapshot, rfl⟩
  · have hinv' := hinv.step hs
    rcases lock_cases hm hleave with ⟨phase, table, phase', hpc, -, -, rfl⟩ |
      ⟨phase, table, lock, hpc, -, rfl⟩ | ⟨lock, table, hpc, -, rfl⟩
    · exact h.lock hpc
    · refine h.enter hpc fun t' lock' b ht' hgroup => ?_
      -- The lock keeps every other thread out of the group.
      have hne : t' ≠ t := SaverNode.ne_of_locking hpc ht'
      have hinside := (Function.update_of_ne hne (InsertPc.inside lock .get) n.pc).trans ht'
      exact hne (hinv'.exclusive hinside (Function.update_self ..) hgroup)
    · exact h.leave hpc
  · refine h.goOn hinv hpc (fun home hs hb => ?_) fun hfailed before hp => ?_
    · obtain ⟨home', htouches, -⟩ := SessionStore.attempt_frame hs hb hattempt
      exact ⟨home', htouches⟩
    · subst hfailed
      exact SessionStore.body_progress hp (SessionStore.body_of_attempt hattempt)
  · exact h.goOn hinv hpc (fun home hs hb => ⟨home, (SessionStore.refuse_frame hs hb hrefuse).1⟩)
      fun hfailed => by cases hfailed
  · exact h.ran hinv hsnapshot

/-- In every run of any number of calls of `KieSessionSaver.insert` with any keys and facts,
whichever of their statements throw, and of the snapshots that are pending: at most one thread at a
time is at work on the session of a group; and when every call that has begun has ended, the session
of each group none of whose calls has failed, nor a snapshot of its session, has its earlier history
and then the facts of the calls for the group, each call once, in the order in which they entered
the monitor of the group. -/
theorem failures_apart {actions : List (Action T)}
    (h : (lts rm calls).exec (initial sessions) actions = some n) :
    (∀ t t' lock lock' body body', n.pc t = .inside lock body → n.pc t' = .inside lock' body' →
      (calls t).1.getGroup = (calls t').1.getGroup → t = t') ∧
    ((∀ t, n.pc t = .locking .lookUp ∨ n.pc t = .returned) →
      n.acquired.Nodup ∧ (∀ t, t ∈ n.acquired ↔ n.pc t = .returned) ∧
      ∀ group, (∀ t, (calls t).1.getGroup = group → n.failed t = false) →
        n.unsaved group = false → Entry.history H (n.store.session group) =
          Entry.history H (sessions group) ++ SaverNode.facts calls n.acquired group) := by
  obtain ⟨hinv, hcontent⟩ := (lts rm calls).exec_invariant
    (fun n => Inv calls n ∧ Content calls H sessions n)
    (fun _ _ _ hi hs => ⟨hi.1.step hs, hi.2.step hi.1 hs⟩) ⟨inv_initial, content_initial⟩ h
  refine ⟨fun t t' lock lock' body body' ht ht' hgroup => hinv.exclusive ht ht' hgroup,
    fun hended => ?_⟩
  -- When every call has ended no thread is at work, and every group is quiet.
  have hnobody : ∀ t lock body, n.pc t ≠ .inside lock body := by
    intro t lock body ht
    rcases hended t with h | h <;> rw [ht] at h <;> cases h
  refine ⟨hcontent.nodup, fun t => ?_, fun group hclean hsaved => ?_⟩
  · rw [hcontent.acquired t]
    constructor
    · rintro (⟨lock, body, ht⟩ | ht)
      · exact absurd ht (hnobody t lock body)
      · exact ht
    · exact .inr
  · exact hcontent.quiet group ⟨hclean, hsaved⟩ fun t lock body ht =>
      absurd ht (hnobody t lock body)

/-- The session of the second call has its fact, whatever has become of the first one's. -/
theorem failures_apart_putThrows :
    ∃ n, (lts (Recorder.manager (jstr "1")) twoPlayersCalls).exec (initial twoSessions)
        (putThrows ++ snapshotRuns) = some n ∧ n.failed false = true ∧
      Entry.history Recorder.history (n.store.session (jstr "other")) = [⟨1⟩, ⟨3⟩] := by
  have hrun : ((lts (Recorder.manager (jstr "1")) twoPlayersCalls).exec (initial twoSessions)
      (putThrows ++ snapshotRuns)).any (fun n => decide
        ((∀ t, n.pc t = .returned) ∧ n.acquired = [false, true] ∧ n.failed false = true ∧
          n.failed true = false ∧ n.unsaved (jstr "other") = false)) = true := by
    decide +kernel
  obtain ⟨n, hn, hafter⟩ := (Option.any_eq_true _ _).1 hrun
  obtain ⟨hended, hacquired, hfailed, hclean, hsaved⟩ := of_decide_eq_true hafter
  obtain ⟨-, hdone⟩ := failures_apart (H := Recorder.history) hn
  obtain ⟨-, -, hhistory⟩ := hdone fun t => .inr (hended t)
  refine ⟨n, hn, hfailed, ?_⟩
  rw [hhistory (jstr "other") (fun t ht => ?_) hsaved, hacquired]
  · rfl
  · cases t with
    | true => exact hclean
    | false => exact absurd ht (by decide)

end FallibleNode

end Hacep
