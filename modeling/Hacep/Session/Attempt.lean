import Hacep.Session.Exclusion
import Hacep.Session.VersionTag

/-!
# A call that fails, statement by statement

One call on a serialized session that no other call and no rules change touches, with everything
that can go wrong in it: the release of an upgrade that cannot be resolved, bytes that cannot be
read, a fact without an instant, an insertion or a consequence that throws, a container update that
throws or reports errors, a session that cannot be marshalled.

A throw loses the facts that the call has in hand: those that it has taken out of the buffer and not
stored, and inside the loop of `replayFacts` the one that it is about to insert, since
`buffer.remove()` comes first. A container that reports errors stays on its release, and the upgrade
stores what it marshals under the node's version. `attempt_keeps_iff`: a call in which something has
failed leaves the facts and the version of the bytes intact exactly when neither happens
(`Harmless`).

The proof is an outline of the calls: `Outline` says of each statement what holds when the call is
about to execute it, and `Bad` is what a harmful failure leaves and nothing mends. A snapshot task
is special: after an upgrade it stores the session again, with the node's container.
-/

namespace Hacep

open Java

variable {F : Type} {E : KieEngine F}

/-- A call that nothing else touches. -/
structure Attempt (E : KieEngine F) where
  shared : Shared E
  thread : Thread E
  /-- Recorded: a statement has thrown, or a container update has reported errors. -/
  failed : Bool := false
  /-- Recorded: an upgrade has stored the bytes, with a container not on the node's version. -/
  unmoved : Bool := false

/-- The container update reports errors. -/
def Statement.reportsErrors (rm : RulesManager) : Statement E → Bool
  | .update work => rm.releaseId.any fun target =>
    E.updateToVersion work.container.releaseId target == .errors
  | _ => false

/-- Whether the bytes are those of a container that has not moved, once the statement returns. -/
def Statement.leavesUnmoved (rm : RulesManager) (unmoved : Bool) : Statement E → Bool
  | .store work => work.own && work.container.releaseId.version != rm.currentVersion
  | _ => unmoved

/-- A throw of the statement loses facts: the call has drained some, or is in the loop that does. -/
def Statement.inHand : Statement E → Bool
  | .replay _ true => true
  | pc => !pc.drained.isEmpty

/-- The last statement of an upgrade. -/
def Statement.setsVersion : Statement E → Bool
  | .setVersion => true
  | _ => false

/-- The call has ended. -/
def Statement.ended : Statement E → Bool
  | .returned | .rebuilt _ | .thrown => true
  | _ => false

/-- The task of `createSnapshot`. -/
def Job.isSnapshot : Job F → Bool
  | .snapshot => true
  | _ => false

/-- A call of `rebuild`. -/
def Job.isRebuild : Job F → Bool
  | .rebuild => true
  | _ => false

namespace Attempt

/-- A call on a session whose bytes are of its version. -/
def start (rm : RulesManager) (object : HAKieSerializedSession F) (job : Job F) : Attempt E where
  shared := (System.start rm object).pool.shared
  thread := ⟨job, job.start, []⟩

variable [Fact F]

/-- The statement that comes next returns. -/
def returns (rm : RulesManager) (a : Attempt E) : Bool := a.thread.returns rm a.shared

/-- The statements of the call, one after the other. -/
def lts (rm : RulesManager) : Lts (Attempt E) Unit where
  step a _ := (a.thread.step rm a.shared).map fun (shared, thread) =>
    { shared := shared
      thread := thread
      failed := !a.returns rm || a.thread.pc.reportsErrors rm || a.failed
      unmoved := if a.returns rm then a.thread.pc.leavesUnmoved rm a.unmoved else a.unmoved }

/-- A statement that throws has no facts in hand, and where the bytes are those of a container that
has not moved to the node's version, the call is a snapshot task and does not throw before it has
stored the session again. -/
def Harmless (rm : RulesManager) (a : Attempt E) : Bool :=
  if a.returns rm then !a.thread.pc.setsVersion || a.thread.job.isSnapshot || !a.unmoved
  else !a.thread.pc.inHand && !a.unmoved

omit [Fact F] in
/-- The facts in the session: those in its bytes, then those in its buffer. -/
abbrev history (H : FactHistory E) (a : Attempt E) : List F := a.shared.object.history H

/-- A call on a session with the facts `base` has lost nothing. -/
structure Keeps (H : FactHistory E) (base : List F) (a : Attempt E) : Prop where
  /-- The facts are those of before; an `add` may have added its own. -/
  facts : a.history H = base ∨ ∃ f, a.thread.job = .add f ∧ a.history H = base ++ [f]
  /-- The bytes were written by the rules of the session's version. -/
  version : a.shared.Written
  /-- A rebuild that returns, no snapshot being pending, hands them out. -/
  rebuilt : ∀ (rm : RulesManager) (out : List (Delivery E.Message)) (h : HAKieSession E) fr,
    HAKieSerializedSession.rebuild rm ⟨{ a.shared.object with saving := false }, out⟩ = .ok h fr →
    h.history H = a.history H
  /-- A snapshot that returns has them in its bytes. -/
  saved : ∀ (rm : RulesManager) (out : List (Delivery E.Message)) fr,
    HAKieSerializedSession.snapshotBody rm ⟨a.shared.object, out⟩ = .ok () fr →
    H.stored fr.this.session = a.history H
  /-- An upgrade that returns has them in its bytes. -/
  upgraded : ∀ (rm : RulesManager) (out : List (Delivery E.Message)) fr,
    HAKieSerializedSession.rebuildSessionAndUpgrade rm ⟨a.shared.object, out⟩ = .ok () fr →
    H.stored fr.this.session = a.history H

/-- The last three hold of every session: a later call makes what it makes of all its facts. -/
theorem keeps_of {H : FactHistory E} {base : List F} {a : Attempt E}
    (hfacts : a.history H = base ∨ ∃ f, a.thread.job = .add f ∧ a.history H = base ++ [f])
    (hversion : a.shared.Written) : a.Keeps H base := by
  have hstored : ∀ s : HAKieSerializedSession F, s.buffer = [] →
      H.stored s.session = s.history H := by
    intro s hnil
    rw [HAKieSerializedSession.history, hnil, List.append_nil]
  refine ⟨hfacts, hversion, fun rm out h fr hrebuild => ?_, fun rm out fr hsaved => ?_,
    fun rm out fr hupgraded => ?_⟩
  · exact HAKieSerializedSession.rebuild_ok (H := H) rfl hrebuild
  · obtain ⟨hhistory, hnil⟩ := HAKieSerializedSession.snapshotBody_ok (H := H) hsaved
    exact (hstored _ hnil).trans hhistory
  · obtain ⟨hhistory, hnil, -⟩ :=
      HAKieSerializedSession.rebuildSessionAndUpgrade_ok (H := H) hupgraded
    exact (hstored _ hnil).trans hhistory

/-! ## The outline -/

section Outline

variable {H : FactHistory E} {r : ReleaseId} {rm : RulesManager} {base : List F}
  {job : Job F} {before : List F} {s s' : Shared E} {failed unmoved : Bool} {pc pc' : Statement E}
  {out : List (Delivery E.Message)} {work : Work E}

omit [Fact F] in
/-- The bytes were written by other rules than those of the session's version. -/
def Mistagged (s : Shared E) : Prop :=
  s.object.session.isSome = true ∧ s.writer ≠ some s.object.version

/-- Facts and bytes are as they were before the call. -/
structure Intact (H : FactHistory E) (base : List F) (unmoved : Bool) (s : Shared E) : Prop where
  facts : s.object.history H = base
  written : s.Written
  unmoved : unmoved = false

/-- The session is on the node's version, and its bytes are too, unless a snapshot task has found a
container that had not moved. -/
structure OnVersion (r : ReleaseId) (job : Job F) (unmoved : Bool) (s : Shared E) : Prop where
  version : s.object.version = r.version
  written : unmoved = false → s.Written
  unmoved : unmoved = true → job.isSnapshot = true ∧ Mistagged s

/-- The call builds a session. -/
structure Builds (H : FactHistory E) (r : ReleaseId) (base : List F) (job : Job F)
    (failed unmoved : Bool) (s : Shared E) (work : Work E) : Prop where
  /-- The stored facts, the facts that it has drained and the buffer are those of before. -/
  facts : H.stored s.object.session ++ work.drained ++ s.object.buffer = base
  /-- The session has the first two. -/
  history : H.history work.session.state = H.stored s.object.session ++ work.drained
  /-- The bytes are still to be upgraded. -/
  own : work.own = true → s.Written ∧ unmoved = false
  /-- The bytes are on the node's version. -/
  current : work.own = false → OnVersion r job unmoved s
  /-- Where something has failed and the call goes on, nothing is left to drain. -/
  failed : failed = true → s.object.buffer = [] ∧ (work.own = false → work.drained = [])

/-- The call has not lost anything. -/
def Kept (H : FactHistory E) (base : List F) (job : Job F) (s : Shared E) : Prop :=
  (s.object.history H = base ∨ ∃ f, job = .add f ∧ s.object.history H = base ++ [f]) ∧ s.Written

/-- What holds when a call is about to execute a statement, as long as nothing harmful has
happened. -/
def Outline (H : FactHistory E) (r : ReleaseId) (base : List F) (job : Job F)
    (failed unmoved : Bool) (s : Shared E) : Statement E → Prop
  | .waitForSnapshot | .readLatch | .await _ | .check | .newContainer | .deserialize _ =>
    Intact H base unmoved s ∧ failed = false
  | .build => s.object.history H = base ∧ OnVersion r job unmoved s ∧
    (failed = true → s.object.buffer = [])
  | .replay work _ => Builds H r base job failed unmoved s work
  | .update work => Builds H r base job failed unmoved s work ∧ work.own = true ∧
    s.object.buffer = []
  | .fire work | .store work => Builds H r base job failed unmoved s work ∧ s.object.buffer = []
  | .setVersion => H.stored s.object.session = base ∧ s.object.buffer = [] ∧
    s.object.session.isSome = true ∧
      ∃ version, s.writer = some version ∧ (unmoved = true ↔ version ≠ r.version)
  | .offer f => Intact H base unmoved s ∧ job = .add f
  | .release | .countDown | .thrown => Intact H base unmoved s
  | .count | .needToSave | .compareAndSet | .newLatch | .execute | .returned => Kept H base job s
  | .rebuilt _ => s.Written ∧ (failed = true → s.object.history H = base)

omit [Fact F] in
/-- The buffer does not matter for the version of the bytes. -/
theorem OnVersion.of_bytes (h : OnVersion r job unmoved s)
    (hversion : s'.object.version = s.object.version)
    (hsession : s'.object.session = s.object.session)
    (hwriter : s'.writer = s.writer) : OnVersion r job unmoved s' := by
  refine ⟨hversion.trans h.version, fun hu bytes hbytes => ?_, fun hu => ?_⟩
  · rw [hsession] at hbytes
    rw [hwriter, hversion]
    exact h.written hu bytes hbytes
  · obtain ⟨hjob, hisSome, hdiffers⟩ := h.unmoved hu
    refine ⟨hjob, ?_, ?_⟩
    · rw [hsession]
      exact hisSome
    · rw [hwriter, hversion]
      exact hdiffers

section Same

variable (hs : s.SameVersions s')
include hs

omit [Fact F] in
theorem history_of_same : s'.object.history H = s.object.history H := by
  rw [HAKieSerializedSession.history, hs.session, hs.buffer, HAKieSerializedSession.history]

omit [Fact F] in
theorem Intact.of_same (h : Intact H base unmoved s) : Intact H base unmoved s' :=
  ⟨(history_of_same hs).trans h.facts, h.written.of_same hs, h.unmoved⟩

omit [Fact F] in
theorem OnVersion.of_same (h : OnVersion r job unmoved s) : OnVersion r job unmoved s' :=
  h.of_bytes hs.version hs.session hs.writer

omit [Fact F] in
theorem Builds.of_same (h : Builds H r base job failed unmoved s work) :
    Builds H r base job failed unmoved s' work := by
  refine ⟨?_, ?_, fun hown => ?_, fun hown => (h.current hown).of_same hs, fun hf => ?_⟩
  · rw [hs.session, hs.buffer]
    exact h.facts
  · rw [hs.session]
    exact h.history
  · exact ⟨(h.own hown).1.of_same hs, (h.own hown).2⟩
  · rw [hs.buffer]
    exact h.failed hf

omit [Fact F] in
theorem Kept.of_same (h : Kept H base job s) : Kept H base job s' := by
  refine ⟨?_, h.2.of_same hs⟩
  rw [history_of_same hs]
  exact h.1

omit [Fact F] in
/-- A change of what the versions do not depend on leaves the outline. -/
theorem Outline.of_same (h : Outline H r base job failed unmoved s pc) :
    Outline H r base job failed unmoved s' pc := by
  cases pc with
  | waitForSnapshot | readLatch | await | check | newContainer | deserialize =>
    exact ⟨h.1.of_same hs, h.2⟩
  | build =>
    refine ⟨(history_of_same hs).trans h.1, h.2.1.of_same hs, fun hf => ?_⟩
    rw [hs.buffer]
    exact h.2.2 hf
  | replay => exact Builds.of_same hs h
  | fire | store => exact ⟨h.1.of_same hs, hs.buffer.trans h.2⟩
  | update => exact ⟨h.1.of_same hs, h.2.1, hs.buffer.trans h.2.2⟩
  | setVersion =>
    obtain ⟨hfacts, hbuffer, hsession, hwriter⟩ := h
    refine ⟨?_, hs.buffer.trans hbuffer, ?_, ?_⟩
    · rw [hs.session]
      exact hfacts
    · rw [hs.session]
      exact hsession
    · rw [hs.writer]
      exact hwriter
  | offer => exact ⟨h.1.of_same hs, h.2⟩
  | release | countDown | thrown => exact Intact.of_same hs h
  | count | needToSave | compareAndSet | newLatch | execute | returned => exact Kept.of_same hs h
  | rebuilt =>
    refine ⟨h.1.of_same hs, fun hf => (history_of_same hs).trans (h.2 hf)⟩

end Same

omit [Fact F] in
/-- What follows a replay. -/
theorem Outline.afterReplay (h : Builds H r base job failed unmoved s work)
    (hempty : s.object.buffer = []) :
    Outline H r base job failed unmoved s (job.afterReplay work) := by
  unfold Job.afterReplay
  cases hown : work.own with
  | true => exact ⟨h, hown, hempty⟩
  | false =>
    cases job with
    | rebuild =>
      -- The session is handed out, and where something has failed it took nothing from the buffer.
      have hwritten : s.Written := by
        cases hunmoved : unmoved with
        | false => exact (h.current hown).written hunmoved
        | true => cases ((h.current hown).unmoved hunmoved).1
      refine ⟨hwritten, fun hf => ?_⟩
      have hfacts := h.facts
      rw [(h.failed hf).2 hown, List.append_nil] at hfacts
      exact hfacts
    | _ => exact ⟨h, hempty⟩

omit [Fact F] in
/-- What follows an upgrade, or a check that asks for none. -/
theorem Outline.afterUpgrade (hfacts : s.object.history H = base)
    (hversion : OnVersion r job unmoved s) (hfailed : failed = true → s.object.buffer = [])
    (hunmoved : job.isSnapshot = true ∨ unmoved = false) :
    Outline H r base job failed unmoved s job.afterUpgrade := by
  cases job with
  | add f =>
    have hmoved : unmoved = false := hunmoved.resolve_left Bool.false_ne_true
    exact ⟨⟨hfacts, hversion.written hmoved, hmoved⟩, rfl⟩
  | createSnapshot =>
    have hmoved : unmoved = false := hunmoved.resolve_left Bool.false_ne_true
    exact ⟨.inl hfacts, hversion.written hmoved⟩
  | snapshot | rebuild => exact ⟨hfacts, hversion, hfailed⟩

omit [Fact F] in
/-- A session with the same facts, built from the same bytes, is as good. -/
theorem Builds.of_history {work' : Work E} (h : Builds H r base job failed unmoved s work)
    (hdrained : work'.drained = work.drained) (hown : work'.own = work.own)
    (hhistory : H.history work'.session.state = H.history work.session.state) :
    Builds H r base job failed unmoved s work' := by
  refine ⟨?_, ?_, fun ho => h.own (hown ▸ ho), fun ho => h.current (hown ▸ ho), fun hf => ?_⟩
  · rw [hdrained]
    exact h.facts
  · rw [hhistory, hdrained]
    exact h.history
  · rw [hdrained, hown]
    exact h.failed hf

omit [Fact F] in
/-- A fact moves from the buffer to the session. -/
theorem Builds.remove {fact : F} {rest : List F} {inserted : KieSession E} {version : JString}
    (h : Builds H r base job failed unmoved s work) (hbuffer : s.object.buffer = fact :: rest)
    (hinserted : H.history inserted.state = H.history work.session.state ++ [fact]) :
    Builds H r base job failed unmoved (s.remove rest version)
      { work with session := inserted, drained := work.drained ++ [fact] } := by
  -- There is a fact to move, so nothing has failed.
  have hnot : failed ≠ true := by
    intro hf
    rw [(h.failed hf).1] at hbuffer
    cases hbuffer
  refine ⟨?_, ?_, h.own, fun hown => (h.current hown).of_bytes rfl rfl rfl, (absurd · hnot)⟩
  · have hfacts := h.facts
    rw [hbuffer] at hfacts
    rw [← hfacts]
    simp [Shared.remove]
  · rw [hinserted, h.history, List.append_assoc]
    rfl

omit [Fact F] in
/-- A call that has read the bytes begins to build. -/
theorem Builds.begin {container : KieContainer} {session : KieSession E} {own : Bool}
    (hfacts : s.object.history H = base)
    (hsession : rm.deserializeOrCreate E container s.object.session = .ok session)
    (hown : own = true → s.Written ∧ unmoved = false)
    (hcurrent : own = false → OnVersion r job unmoved s)
    (hfailed : failed = true → s.object.buffer = []) :
    Builds H r base job failed unmoved s ⟨own, container, session, []⟩ := by
  refine ⟨?_, ?_, hown, hcurrent, fun hf => ⟨hfailed hf, fun _ => rfl⟩⟩
  · rw [List.append_nil]
    exact hfacts
  · rw [List.append_nil]
    exact (RulesManager.deserializeOrCreate_ok H hsession).1

omit [Fact F] in
/-- What follows the check: where no upgrade is due, the session is on the node's version. -/
theorem Outline.check (hr : rm.Running r) {needed : Bool} (hintact : Intact H base unmoved s)
    (hfailed : failed = false) (hneeded : s.object.isUpgradeNeeded rm = .ok needed) :
    Outline H r base job failed unmoved s (if needed then .newContainer else job.afterUpgrade) := by
  cases needed with
  | true => exact ⟨hintact, hfailed⟩
  | false =>
    have hversion : s.object.version = r.version := by
      unfold HAKieSerializedSession.isUpgradeNeeded at hneeded
      rw [hr.getReleaseId] at hneeded
      simpa using Except.ok.inj hneeded
    refine .afterUpgrade hintact.facts ⟨hversion, fun _ => hintact.written, fun hu => ?_⟩ ?_
      (.inr hintact.unmoved)
    · cases hintact.unmoved.symm.trans hu
    · intro hf
      cases hfailed.symm.trans hf

omit [Fact F] in
/-- What follows a store: the bytes have the facts of the session, which are all of them. -/
theorem Outline.store (hr : rm.Running r) {container : KieContainer} {bytes : JBytes}
    (hbuilds : Builds H r base job failed unmoved s work) (hempty : s.object.buffer = [])
    (hcontainer : (if work.own then .ok work.container else rm.getKieContainer) = .ok container)
    (hbytes : rm.serialize E container work.session = .ok bytes) :
    Outline H r base job failed ((Statement.store work).leavesUnmoved rm unmoved)
      (s.store bytes container.releaseId.version) (if work.own then .setVersion else .release) := by
  have hstored : H.stored (some bytes) = base := by
    have hfacts := hbuilds.facts
    rw [hempty, List.append_nil, ← hbuilds.history] at hfacts
    exact (RulesManager.serialize_ok H hbytes).trans hfacts
  have hcurrent : rm.currentVersion = r.version := by
    rw [RulesManager.currentVersion, hr.releaseId]
    rfl
  cases hown : work.own with
  | true =>
    -- An upgrade stores by its own container, which may not have moved.
    rw [hown, if_pos rfl] at hcontainer
    cases hcontainer
    refine ⟨hstored, hempty, rfl, work.container.releaseId.version, rfl, ?_⟩
    simp [Statement.leavesUnmoved, hown, hcurrent]
  | false =>
    -- A snapshot stores by the node's container.
    rw [hown, if_neg Bool.false_ne_true, hr.getKieContainer] at hcontainer
    cases hcontainer
    have hversion : s.object.version = r.version := (hbuilds.current hown).version
    refine ⟨?_, fun _ _ => congrArg some hversion.symm, ?_⟩
    · show H.stored (some bytes) ++ s.object.buffer = base
      rw [hempty, List.append_nil]
      exact hstored
    · simp [Statement.leavesUnmoved, hown]

omit [Fact F] in
/-- What follows the last statement of an upgrade. -/
theorem Outline.setVersion (h : Outline H r base job failed unmoved s .setVersion)
    (hok : job.isSnapshot = true ∨ unmoved = false) :
    Outline H r base job failed unmoved (s.setObject fun o => { o with version := r.version })
      job.afterUpgrade := by
  obtain ⟨hstored, hempty, hsession, version, hwriter, hunmoved⟩ := h
  refine .afterUpgrade ?_ ⟨rfl, fun hu bytes hbytes => ?_, fun hu => ⟨?_, hsession, ?_⟩⟩
    (fun _ => hempty) hok
  · show H.stored s.object.session ++ s.object.buffer = base
    rw [hempty, List.append_nil]
    exact hstored
  · show s.writer = some r.version
    have hmoved : ¬version ≠ r.version := fun hne => by cases hu.symm.trans (hunmoved.2 hne)
    rw [hwriter, not_not.1 hmoved]
  · exact hok.resolve_right fun h => by cases h.symm.trans hu
  · show s.writer ≠ some r.version
    rw [hwriter]
    exact fun h => hunmoved.1 hu (Option.some.inj h)

/-- A statement that returns keeps the outline, unless an upgrade other than a snapshot task's sets
the version for bytes that are of another one. -/
theorem Outline.runs (hr : rm.Running r) (h : Outline H r base job failed unmoved s pc)
    (hruns : Statement.Runs rm job s pc pc' s' out)
    (hok : pc = .setVersion → job.isSnapshot = true ∨ unmoved = false) :
    Outline H r base job (pc.reportsErrors rm || failed) (pc.leavesUnmoved rm unmoved)
      { s' with sent := s'.sent ++ out } pc' := by
  have hsent : s'.SameVersions { s' with sent := s'.sent ++ out } := ⟨rfl, rfl, rfl, rfl, rfl, rfl⟩
  refine Outline.of_same hsent ?_
  cases hruns with
  | waitForSnapshot =>
    cases s.object.saving with
    | true => exact h
    | false => exact h
  | readLatch | await => exact h
  | check needed hneeded => exact Outline.check hr h.1 h.2 hneeded
  | newContainer container hcontainer => exact h
  | deserialize container session hsession =>
    obtain ⟨hintact, hfailed⟩ := h
    refine Builds.begin hintact.facts hsession (fun _ => ⟨hintact.written, hintact.unmoved⟩) nofun ?_
    intro hf
    cases hfailed.symm.trans hf
  | build container session hcontainer hsession =>
    obtain ⟨hfacts, hversion, hempty⟩ := h
    exact Builds.begin hfacts hsession nofun (fun _ => hversion) hempty
  | nothing work hbuffer =>
    have hbuilds : Builds H r base job failed unmoved s work := h
    refine .afterReplay (hbuilds.of_history rfl rfl ?_) hbuffer
    rw [RulesManager.registerChannels_state]
  | begin work hbuffer =>
    have hbuilds : Builds H r base job failed unmoved s work := h
    refine hbuilds.of_history rfl rfl ?_
    rw [RulesManager.registerReplayChannels_state]
  | remove work fact rest advanced inserted hbuffer hadvance hinsert =>
    have hbuilds : Builds H r base job failed unmoved s work := h
    refine hbuilds.remove hbuffer ?_
    obtain ⟨⟨d, rfl⟩, -⟩ := KieSessionUtils.advanceClock_ok hadvance
    obtain ⟨hnone, rfl, -⟩ := KieSession.insert_ok hinsert
    rw [H.insert _ _ hnone, H.advanceTime]
  | done work hbuffer =>
    have hsame : s.SameVersions (s.setObject fun o => { o with size := 0 }) :=
      ⟨rfl, rfl, rfl, rfl, rfl, rfl⟩
    exact ⟨Builds.of_same hsame h, hbuffer⟩
  | fire work fired out hfire =>
    obtain ⟨hbuilds, hempty⟩ := h
    obtain ⟨rfl, -⟩ := KieSession.fireAllRules_ok hfire
    refine .afterReplay (hbuilds.of_history rfl rfl ?_) hempty
    rw [RulesManager.registerChannels_state, H.fireAllRules]
  | update work target container session htarget hupdate =>
    obtain ⟨hbuilds, hown, hempty⟩ := h
    have hmoved : Builds H r base job failed unmoved s
        { work with container := container, session := session } :=
      hbuilds.of_history rfl rfl (HAKieSerializedSession.updateToVersion_ok hupdate)
    -- The update may report errors, and the buffer is empty by now.
    refine ⟨⟨hmoved.facts, hmoved.history, hmoved.own, hmoved.current,
      fun _ => ⟨hempty, fun hnot => ?_⟩⟩, hempty⟩
    cases hown.symm.trans hnot
  | store work container bytes hcontainer hbytes => exact .store hr h.1 h.2 hcontainer hbytes
  | setVersion r' hr' =>
    rw [hr.getReleaseId] at hr'
    cases hr'
    exact Outline.setVersion h (hok rfl)
  | offer fact =>
    obtain ⟨hintact, rfl⟩ := h
    refine ⟨.inr ⟨fact, rfl, ?_⟩, hintact.written⟩
    rw [← hintact.facts]
    exact (List.append_assoc ..).symm
  | needToSave =>
    cases s.object.needToSave rm with
    | true => exact h
    | false => exact h
  | compareAndSet =>
    have hkept : Kept H base job (s.setObject fun o => { o with saving := true }) :=
      Kept.of_same ⟨rfl, rfl, rfl, rfl, rfl, rfl⟩ h
    cases s.object.saving with
    | true => exact hkept
    | false => exact hkept
  | count => exact Kept.of_same ⟨rfl, rfl, rfl, rfl, rfl, rfl⟩ h
  | newLatch => exact Kept.of_same ⟨rfl, rfl, rfl, rfl, rfl, rfl⟩ h
  | execute => exact Kept.of_same ⟨rfl, rfl, rfl, rfl, rfl, rfl⟩ h
  | release =>
    exact Intact.of_same (s := s) ⟨rfl, rfl, rfl, rfl, rfl, rfl⟩ h
  | countDown =>
    refine ⟨.inl ?_, h.written⟩
    exact h.facts

/-- On a node that runs a release the version can be set. -/
theorem setVersion_returns {e : Throwable} (hr : rm.Running r) :
    next rm job (.setVersion : Statement E) ⟨s, []⟩ ≠ .error e ⟨s', out⟩ := by
  intro herror
  simp only [next, hr.getReleaseId, bind_eq_error, lift_eq_error, modifyThis_run, pure_run,
    reduceCtorEq, false_and, exists_false, and_false, or_self] at herror

omit [Fact F] in
/-- A call without facts in hand has drained none. -/
theorem drained_of_not_inHand (h : pc.inHand = false) : pc.drained = [] := by
  have hempty : (!pc.drained.isEmpty) = false → pc.drained = [] := fun h => by simpa using h
  cases pc with
  | replay work begun =>
    cases begun with
    | true => cases h
    | false => exact hempty h
  | _ => exact hempty h

/-- A throw with nothing in hand keeps the outline, where the bytes are of the session's version. -/
theorem Outline.throws {e : Throwable} (hr : rm.Running r)
    (h : Outline H r base job failed unmoved s pc)
    (herror : next rm job pc ⟨s, []⟩ = .error e ⟨s', out⟩) (hhand : pc.inHand = false)
    (hunmoved : unmoved = false) :
    Outline H r base job true unmoved { s' with sent := s'.sent ++ out } job.afterThrow := by
  have hdrained := drained_of_not_inHand hhand
  have hbuilds : ∀ {work : Work E}, Builds H r base job failed unmoved s work → work.drained = [] →
      Intact H base unmoved s := by
    intro work hbuilds hnil
    have hfacts := hbuilds.facts
    rw [hnil, List.append_nil] at hfacts
    refine ⟨hfacts, ?_, hunmoved⟩
    cases hown : work.own with
    | true => exact (hbuilds.own hown).1
    | false => exact (hbuilds.current hown).written hunmoved
  have hintact : Intact H base unmoved s := by
    cases pc with
    | waitForSnapshot | readLatch | await | check | newContainer | deserialize => exact h.1
    | build => exact ⟨h.1, h.2.1.written hunmoved, hunmoved⟩
    | replay => exact hbuilds h hdrained
    | fire | update | store => exact hbuilds h.1 hdrained
    | setVersion => exact absurd herror (setVersion_returns hr)
    | offer => exact h.1
    | release | countDown | thrown => exact h
    | _ => cases herror
  -- The statement has changed nothing.
  have hsame : s.SameVersions { s' with sent := s'.sent ++ out } := by
    rcases next_eq_error rm herror with ⟨rfl, -⟩ | ⟨-, work, fact, rest, rfl, -⟩
    · exact ⟨rfl, rfl, rfl, rfl, rfl, rfl⟩
    · cases hhand
  have hthrown : Intact H base unmoved { s' with sent := s'.sent ++ out } := hintact.of_same hsame
  cases job <;> exact hthrown

/-! ## What a harmful failure leaves -/

omit [Fact F] in
/-- The call is over, but for what the task of `createSnapshot` does in its `finally`. -/
def isOver : Statement E → Bool
  | .release | .countDown | .returned | .thrown => true
  | _ => false

omit [Fact F] in
/-- The call stores no bytes any more. -/
def storesNoMore (job : Job F) : Statement E → Bool
  | .release | .countDown | .returned | .thrown | .rebuilt _ => true
  | .offer _ | .count | .needToSave | .compareAndSet | .newLatch | .execute => true
  | .build => job.isRebuild
  | .replay work _ | .fire work => job.isRebuild && !work.own
  | _ => false

omit [Fact F] in
theorem storesNoMore_afterReplay (work : Work E) (h : (job.isRebuild && !work.own) = true) :
    storesNoMore job (job.afterReplay work) = true := by
  rw [Bool.and_eq_true, Bool.not_eq_true'] at h
  unfold Job.afterReplay
  rw [h.2]
  cases job with
  | rebuild => rfl
  | _ => cases h.1

omit [Fact F] in
/-- Facts are lost, or the bytes are of other rules than the session's version says, for good. -/
def Bad (H : FactHistory E) (base : List F) (job : Job F) (s : Shared E) (pc : Statement E) :
    Prop :=
  (s.object.history H).length < base.length ∧ isOver pc = true ∨
    Mistagged s ∧ storesNoMore job pc = true

/-- A throw with facts in hand loses them. -/
theorem Bad.of_inHand {e : Throwable} (h : Outline H r base job failed unmoved s pc)
    (herror : next rm job pc ⟨s, []⟩ = .error e ⟨s', out⟩) (hhand : pc.inHand = true) :
    Bad H base job { s' with sent := s'.sent ++ out } job.afterThrow := by
  have hover : isOver (job.afterThrow : Statement E) = true := by cases job <;> rfl
  -- What has been drained is neither in the bytes nor in the buffer.
  have hdrained : ∀ {work : Work E}, Builds H r base job failed unmoved s work →
      (!work.drained.isEmpty) = true → (s.object.history H).length < base.length := by
    intro work hbuilds hne
    have hpos : 0 < work.drained.length := List.length_pos_iff.2 (by simpa using hne)
    rw [← hbuilds.facts, HAKieSerializedSession.history]
    simp only [List.length_append]
    omega
  refine .inl ⟨?_, hover⟩
  show (s'.object.history H).length < base.length
  by_cases hloop : ∃ work, pc = .replay work true
  · -- The fact that the loop has taken is lost too.
    obtain ⟨work, rfl⟩ := hloop
    obtain ⟨fact, rest, hbuffer, rfl, -⟩ := next_replay_error rm herror
    have hbuilds : Builds H r base job failed unmoved s work := h
    rw [← hbuilds.facts, HAKieSerializedSession.history, hbuffer]
    simp only [Shared.remove, List.length_append, List.length_cons]
    omega
  · have hs : s' = s := by
      rcases next_eq_error rm herror with ⟨hs, -⟩ | ⟨-, work, fact, rest, hpc, -⟩
      · exact hs
      · exact absurd ⟨work, hpc⟩ hloop
    rw [hs]
    cases pc with
    | replay work begun =>
      cases begun with
      | true => exact absurd ⟨work, rfl⟩ hloop
      | false => exact hdrained h hhand
    | fire | update | store => exact hdrained h.1 hhand
    | rebuilt => cases herror
    | _ => cases hhand

/-- A throw after an upgrade of a snapshot task whose container has not moved. -/
theorem Bad.of_unmoved {e : Throwable} (hr : rm.Running r)
    (h : Outline H r base job failed unmoved s pc)
    (herror : next rm job pc ⟨s, []⟩ = .error e ⟨s', out⟩) (hunmoved : unmoved = true) :
    Bad H base job { s' with sent := s'.sent ++ out } job.afterThrow := by
  have hstores : storesNoMore job (job.afterThrow : Statement E) = true := by cases job <;> rfl
  have hintact : ∀ {P : Prop}, Intact H base unmoved s → P :=
    fun hintact => absurd (hintact.unmoved.symm.trans hunmoved) Bool.false_ne_true
  have hbuilds : ∀ {work : Work E}, Builds H r base job failed unmoved s work → Mistagged s := by
    intro work hbuilds
    cases hown : work.own with
    | true => exact absurd ((hbuilds.own hown).2.symm.trans hunmoved) Bool.false_ne_true
    | false => exact ((hbuilds.current hown).unmoved hunmoved).2
  have hmistagged : Mistagged s := by
    cases pc with
    | waitForSnapshot | readLatch | await | check | newContainer | deserialize => exact hintact h.1
    | build => exact (h.2.1.unmoved hunmoved).2
    | replay => exact hbuilds h
    | fire | update | store => exact hbuilds h.1
    | setVersion => exact absurd herror (setVersion_returns hr)
    | offer => exact hintact h.1
    | release | countDown | thrown => exact hintact h
    | _ => cases herror
  refine .inr ⟨?_, hstores⟩
  rcases next_eq_error rm herror with ⟨rfl, -⟩ | ⟨-, work, fact, rest, -, -, rfl⟩
  · exact hmistagged
  · exact hmistagged

/-- An upgrade other than a snapshot task's that sets the version for bytes of another one. -/
theorem Bad.of_setVersion (hr : rm.Running r)
    (h : Outline H r base job failed unmoved s .setVersion)
    (hruns : Statement.Runs rm job s .setVersion pc' s' out) (hjob : job.isSnapshot = false)
    (hunmoved : unmoved = true) : Bad H base job { s' with sent := s'.sent ++ out } pc' := by
  obtain ⟨-, -, hsession, version, hwriter, hdiffers⟩ := h
  cases hruns with
  | setVersion r' hr' =>
    rw [hr.getReleaseId] at hr'
    cases hr'
    refine .inr ⟨⟨hsession, ?_⟩, ?_⟩
    · show s.writer ≠ some r.version
      rw [hwriter]
      exact fun h => hdiffers.1 hunmoved (Option.some.inj h)
    · cases job with
      | snapshot => cases hjob
      | _ => rfl

/-- No statement mends it. -/
theorem Bad.runs (h : Bad H base job s pc) (hruns : Statement.Runs rm job s pc pc' s' out) :
    Bad H base job { s' with sent := s'.sent ++ out } pc' := by
  rcases h with ⟨hlost, hover⟩ | ⟨hmistagged, hstores⟩
  · cases hruns with
    | release | countDown => exact .inl ⟨hlost, rfl⟩
    | _ => cases hover
  · cases hruns with
    | build container session hcontainer hsession =>
      exact .inr ⟨hmistagged, by simpa [storesNoMore] using hstores⟩
    | nothing work hbuffer => exact .inr ⟨hmistagged, storesNoMore_afterReplay _ hstores⟩
    | begin work hbuffer => exact .inr ⟨hmistagged, hstores⟩
    | remove => exact .inr ⟨hmistagged, hstores⟩
    | done => exact .inr ⟨hmistagged, hstores⟩
    | fire work fired out hfire => exact .inr ⟨hmistagged, storesNoMore_afterReplay _ hstores⟩
    | needToSave => exact .inr ⟨hmistagged, by split <;> rfl⟩
    | compareAndSet => exact .inr ⟨hmistagged, by split <;> rfl⟩
    | release | countDown | count | newLatch | execute | offer => exact .inr ⟨hmistagged, rfl⟩
    | _ => cases hstores

/-- No throw mends it. -/
theorem Bad.throws {e : Throwable} (h : Bad H base job s pc)
    (herror : next rm job pc ⟨s, []⟩ = .error e ⟨s', out⟩) :
    Bad H base job { s' with sent := s'.sent ++ out } job.afterThrow := by
  rcases h with ⟨hlost, hover⟩ | ⟨hmistagged, hstores⟩
  · cases pc with
    | release | countDown | returned | thrown => cases herror
    | _ => cases hover
  · refine .inr ⟨?_, by cases job <;> rfl⟩
    rcases next_eq_error rm herror with ⟨rfl, -⟩ | ⟨-, work, fact, rest, -, -, rfl⟩
    · exact hmistagged
    · exact hmistagged

end Outline

/-! ## The whole call -/

variable {H : FactHistory E} {r : ReleaseId} {rm : RulesManager} {base : List F} {a a' : Attempt E}
  {object : HAKieSerializedSession F} {job : Job F}

/-- A step runs the statement, or is an exception. -/
theorem step_eq_some (h : (lts rm).step a () = some a') :
    (a.returns rm = true ∧ ∃ pc s out,
      Statement.Runs rm a.thread.job a.shared a.thread.pc pc s out ∧
      a' = ⟨{ s with sent := s.sent ++ out }, { a.thread with pc := pc },
        a.thread.pc.reportsErrors rm || a.failed, a.thread.pc.leavesUnmoved rm a.unmoved⟩) ∨
    a.returns rm = false ∧ ∃ e s out, next rm a.thread.job a.thread.pc ⟨a.shared, []⟩ =
        .error e ⟨s, out⟩ ∧
      a' = ⟨{ s with sent := s.sent ++ out }, { a.thread with pc := a.thread.job.afterThrow },
        true, a.unmoved⟩ := by
  obtain ⟨⟨s, t⟩, hstep, rfl⟩ := Option.map_eq_some_iff.1 h
  unfold returns Thread.returns
  unfold Thread.step at hstep
  split at hstep
  · cases hstep
  have hpc : a.thread.pc.isBlocked a.shared = false := Bool.eq_false_iff.2 ‹_›
  cases hnext : next rm a.thread.job a.thread.pc ⟨a.shared, []⟩ with
  | ok pc fr =>
    rw [hnext] at hstep
    cases hstep
    exact .inl ⟨rfl, pc, fr.this, fr.out, next_eq_ok rm hpc hnext, rfl⟩
  | error e fr =>
    rw [hnext] at hstep
    cases hstep
    exact .inr ⟨rfl, e, fr.this, fr.out, rfl, rfl⟩

/-- As long as nothing harmful has happened, the outline holds of the next statement. -/
def Good (H : FactHistory E) (r : ReleaseId) (base : List F) (a : Attempt E) : Prop :=
  Outline H r base a.thread.job a.failed a.unmoved a.shared a.thread.pc

/-- A harmless step keeps the outline, a harmful one makes the call bad. -/
theorem Good.step (hr : rm.Running r) (h : a.Good H r base) (hs : (lts rm).step a () = some a') :
    if a.Harmless rm then a'.Good H r base
    else Bad H base a'.thread.job a'.shared a'.thread.pc := by
  unfold Harmless
  rcases step_eq_some hs with
    ⟨hreturns, pc, s, out, hruns, rfl⟩ | ⟨hreturns, e, s, out, herror, rfl⟩
  · obtain ⟨shared, ⟨job, pc₀, before⟩, failed, unmoved⟩ := a
    rw [hreturns, if_pos rfl]
    simp only
    by_cases hok : (!pc₀.setsVersion || job.isSnapshot || !unmoved) = true
    · rw [if_pos hok]
      refine Outline.runs hr h hruns fun hpc => ?_
      subst hpc
      simpa [Statement.setsVersion] using hok
    · -- Only the statement that sets the version can do harm when it returns.
      rw [if_neg hok]
      have hharm : pc₀.setsVersion = true ∧ job.isSnapshot = false ∧ unmoved = true := by
        simpa [and_assoc] using hok
      obtain ⟨hset, hjob, rfl⟩ := hharm
      cases pc₀ with
      | setVersion => exact Bad.of_setVersion hr h hruns hjob rfl
      | _ => cases hset
  · rw [hreturns, if_neg Bool.false_ne_true]
    cases hhand : a.thread.pc.inHand with
    | true => exact Bad.of_inHand h herror hhand
    | false =>
      cases hunmoved : a.unmoved with
      | true => exact Bad.of_unmoved hr h herror hunmoved
      | false =>
        have hgood := Outline.throws hr h herror hhand hunmoved
        rw [hunmoved] at hgood
        exact hgood

/-- What is bad stays bad. -/
theorem Bad.step (h : Bad H base a.thread.job a.shared a.thread.pc)
    (hs : (lts rm).step a () = some a') : Bad H base a'.thread.job a'.shared a'.thread.pc := by
  rcases step_eq_some hs with ⟨-, pc, s, out, hruns, rfl⟩ | ⟨-, e, s, out, herror, rfl⟩
  · exact Bad.runs h hruns
  · exact Bad.throws h herror

omit [Fact F] in
/-- A call begins well. -/
theorem Good.start (rm : RulesManager) (object : HAKieSerializedSession F) (job : Job F) :
    (start rm object job).Good H r (object.history H) := by
  have hwritten : (System.start (E := E) rm object).pool.shared.Written := by
    intro bytes hbytes
    show object.session.map (fun _ => object.version) = some object.version
    rw [show object.session = some bytes from hbytes]
    rfl
  cases job with
  | createSnapshot => exact ⟨.inl rfl, hwritten⟩
  | _ => exact ⟨⟨rfl, hwritten, rfl⟩, rfl⟩

/-- A call that ends well, and in which something has failed, has kept what was there. -/
theorem Good.keeps (h : a.Good H r base) (hended : a.thread.pc.ended = true)
    (hfailed : a.failed = true) : a.Keeps H base := by
  obtain ⟨shared, ⟨job, pc, before⟩, failed, unmoved⟩ := a
  cases pc with
  | returned => exact keeps_of h.1 h.2
  | rebuilt => exact keeps_of (.inl (h.2 hfailed)) h.1
  | thrown => exact keeps_of (.inl h.facts) h.written
  | _ => cases hended

/-- A bad call has not. -/
theorem Bad.not_keeps (h : Bad H base a.thread.job a.shared a.thread.pc) : ¬a.Keeps H base := by
  intro hkeeps
  rcases h with ⟨hlost, -⟩ | ⟨⟨hsession, hwriter⟩, -⟩
  · replace hlost : (a.history H).length < base.length := hlost
    rcases hkeeps.facts with hfacts | ⟨f, -, hfacts⟩
    · rw [hfacts] at hlost
      exact Nat.lt_irrefl _ hlost
    · rw [hfacts, List.length_append] at hlost
      omega
  · obtain ⟨bytes, hbytes⟩ := Option.isSome_iff_exists.1 hsession
    exact hwriter (hkeeps.version bytes hbytes)

/-- Take any call on any serialized session, on a node that runs a release: an `add`, a task of
`createSnapshot` or a `rebuild`, in which something fails, whatever it is and wherever. When the
call has ended, the bytes, the version and the buffer have everything that was there, and the
version is that of the rules that wrote the bytes, if and only if every statement that throws has no
facts in hand, and no upgrade has stored the session of a container that reported errors, or a
snapshot task has stored it again. -/
theorem attempt_keeps_iff {steps : List Unit} (hr : rm.Running r)
    (h : (lts rm).exec (start (E := E) rm object job) steps = some a)
    (hended : a.thread.pc.ended = true) (hfailed : a.failed = true) :
    a.Keeps H (object.history H) ↔
      (lts rm).Guarded (fun (a : Attempt E) _ => a.Harmless rm = true) (start rm object job)
        steps := by
  have hkeep : ∀ (a : Attempt E) u a', a.Good H r (object.history H) → a.Harmless rm = true →
      (lts rm).step a u = some a' → a'.Good H r (object.history H) := by
    intro a u a' hgood hok hs
    have hstep := hgood.step hr hs
    rwa [if_pos hok] at hstep
  have hmiss : ∀ (a : Attempt E) u a', a.Good H r (object.history H) → ¬a.Harmless rm = true →
      (lts rm).step a u = some a' →
      Bad H (object.history H) a'.thread.job a'.shared a'.thread.pc := by
    intro a u a' hgood hharm hs
    have hstep := hgood.step hr hs
    rwa [if_neg hharm] at hstep
  have hends := (lts rm).good_or_bad _ _ _ hkeep hmiss (fun a _ a' hbad hs => hbad.step hs)
    (Good.start rm object job) h
  rcases hends with ⟨hguarded, hgood⟩ | ⟨hunguarded, hbad⟩
  · exact iff_of_true (hgood.keeps hended hfailed) hguarded
  · exact iff_of_false hbad.not_keeps hunguarded

/-- It is a run of the system whose only thread is in that call. -/
theorem exec_system {steps : List Unit} (h : (lts rm).exec a steps = some a') :
    (System.lts E).exec ⟨rm, a.shared, [a.thread]⟩ (System.steps 0 steps.length) =
      some ⟨rm, a'.shared, [a'.thread]⟩ := by
  induction steps generalizing a with
  | nil =>
    cases h
    rfl
  | cons u steps ih =>
    obtain ⟨a₁, hs, h⟩ := (lts (E := E) rm).exec_cons_eq_some.1 h
    obtain ⟨⟨s, t⟩, hstep, rfl⟩ := Option.map_eq_some_iff.1 hs
    have hfirst : (System.lts E).step ⟨rm, a.shared, [a.thread]⟩ (.step 0) =
        some ⟨rm, s, [t]⟩ := by
      show System.step (⟨rm, a.shared, [a.thread]⟩ : System E) 0 = _
      simp only [System.step, List.getElem?_cons_zero, Option.bind_some, hstep, Option.map_some]
      rfl
    rw [List.length_cons, System.steps, List.replicate_succ]
    exact Lts.exec_cons_eq_some _ |>.2 ⟨_, hfirst, ih h⟩

/-! ## Runs -/

/-- Version 1 with a buffered reading, and bytes that are no session's. -/
def unreadable : HAKieSerializedSession Reading where
  version := jstr "1"
  session := some ⟨[], by decide⟩
  size := 1
  buffer := [⟨7⟩]

/-- The snapshot cannot read the bytes, and the session keeps them and its reading. -/
theorem attempt_keeps_iff_unreadable :
    ∃ a : Attempt Recorder.engine, (lts (Recorder.manager (jstr "1"))).exec
        (start (Recorder.manager (jstr "1")) unreadable .snapshot) (List.replicate 4 ()) = some a ∧
      a.thread.pc.ended = true ∧ a.failed = true ∧
      a.Keeps Recorder.history (unreadable.history Recorder.history) := by
  have hrun : ((lts (E := Recorder.engine) (Recorder.manager (jstr "1"))).exec
      (start (Recorder.manager (jstr "1")) unreadable .snapshot) (List.replicate 4 ())).any
        (fun a => a.thread.pc.ended && a.failed) = true := by
    decide +kernel
  have hharmless : (lts (E := Recorder.engine) (Recorder.manager (jstr "1"))).Guarded
      (fun (a : Attempt Recorder.engine) _ => a.Harmless (Recorder.manager (jstr "1")) = true)
      (start (Recorder.manager (jstr "1")) unreadable .snapshot) (List.replicate 4 ()) := by
    decide +kernel
  obtain ⟨a, ha, hafter⟩ := (Option.any_eq_true _ _).1 hrun
  obtain ⟨hended, hfailed⟩ := Bool.and_eq_true_iff.1 hafter
  exact ⟨a, ha, hended, hfailed,
    (attempt_keeps_iff (Recorder.manager_running _) ha hended hfailed).2 hharmless⟩

/-- Version 1 without bytes, and two readings, of which the second cannot be inserted. -/
def uninsertable : HAKieSerializedSession Reading where
  version := jstr "1"
  size := 2
  buffer := [⟨7⟩, ⟨254⟩]

/-- The snapshot throws at the second reading, and the session has neither of them any more. -/
theorem uninsertable_loses :
    ∃ a : Attempt Recorder.engine, (lts (Recorder.manager (jstr "1"))).exec
        (start (Recorder.manager (jstr "1")) uninsertable .snapshot) (List.replicate 7 ()) =
          some a ∧
      a.thread.pc.ended = true ∧ a.failed = true ∧ a.shared.object.session = none ∧
      a.shared.object.buffer = [] ∧
      ¬a.Keeps Recorder.history (uninsertable.history Recorder.history) := by
  have hrun : ((lts (E := Recorder.engine) (Recorder.manager (jstr "1"))).exec
      (start (Recorder.manager (jstr "1")) uninsertable .snapshot) (List.replicate 7 ())).any
        (fun a => decide (a.thread.pc.ended = true ∧ a.failed = true ∧
          a.shared.object.session = none ∧ a.shared.object.buffer = [])) = true := by
    decide +kernel
  obtain ⟨a, ha, hafter⟩ := (Option.any_eq_true _ _).1 hrun
  obtain ⟨hended, hfailed, hsession, hbuffer⟩ := of_decide_eq_true hafter
  refine ⟨a, ha, hended, hfailed, hsession, hbuffer, fun hkeeps => ?_⟩
  have hnothing : a.history Recorder.history = [] := by
    rw [history, HAKieSerializedSession.history, hsession, hbuffer]
    rfl
  rcases hkeeps.facts with hfacts | ⟨f, -, hfacts⟩ <;> rw [hnothing] at hfacts <;> cases hfacts

end Attempt

end Hacep
