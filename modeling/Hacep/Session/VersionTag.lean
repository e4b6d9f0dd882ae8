import Hacep.Recorder
import Hacep.Session.Threads

/-!
# The version of a session and the rules that it meets

A serialized session carries the version of the rules that wrote its bytes. A call looks at the
version once, in `isUpgradeNeeded`, and relies on it until it has buffered its fact or stored its
bytes (`Statement.versioned`), while the node's rules may change at any moment.

`version_faithful` says what holds in a run in which the rules change only while no call relies on
the version, an upgrade begins only while no other call does, and no container that an upgrade makes
reports errors (`Settled`): the version is that of the container that wrote the bytes, and every
fact is replayed by the version of the rules that was current when it was added, before the session
moves on. A rules change between the check of a snapshot and its store is enough to break it
(`changeDuringSnapshot_mistags`).

Each statement has a condition on the version (`Statement.Agrees`); the proof carries it for every
thread together with what is recorded of the bytes and of the facts.
-/

namespace Hacep

open Java

variable {F : Type} {E : KieEngine F}

/-- The call has looked at the version, and what it does next depends on it. -/
def Statement.versioned : Statement E → Bool
  | .newContainer | .deserialize _ | .build | .replay _ _ | .fire _ | .update _ | .store _
  | .setVersion | .offer _ => true
  | _ => false

/-- The call upgrades the session. -/
def Statement.upgrading : Statement E → Bool
  | .newContainer | .deserialize _ | .update _ | .setVersion => true
  | .replay work _ | .fire work | .store work => work.own
  | _ => false

/-- No call relies on the version while the rules change or an upgrade begins, and the container of
an upgrade does not report errors. -/
def System.Settled (s : System E) : System.Action F → Bool
  | .call _ => true
  | .updateToVersion _ => s.pool.threads.all fun t => !t.pc.versioned
  | .step i => (s.pool.threads[i]?).all fun t =>
    match t.pc with
    | .check => (s.pool.shared.object.isUpgradeNeeded s.rules).toOption != some true ||
      (s.pool.threads.eraseIdx i).all fun u => !u.pc.versioned
    | .update work => s.rules.releaseId.all fun target =>
      E.updateToVersion work.container.releaseId target != .errors
    | _ => true

/-- What a statement relies on, on a node that runs the release `r`. -/
def Statement.Agrees (r : ReleaseId) (s : Shared E) : Statement E → Prop
  | .newContainer => s.object.version ≠ r.version
  | .deserialize container =>
    s.object.version ≠ r.version ∧ container.releaseId.version = s.object.version
  | .build | .offer _ => s.object.version = r.version
  | .replay work _ => work.container.releaseId.version = s.object.version ∧
      (work.own = true ↔ s.object.version ≠ r.version)
  | .fire work => (work.own = true ↔ s.object.version ≠ r.version) ∧
      (work.own = true → work.container.releaseId.version = s.object.version ∧ s.object.buffer = [])
  | .update work => s.object.version ≠ r.version ∧ work.own = true ∧ s.object.buffer = []
  | .store work => (work.own = true ↔ s.object.version ≠ r.version) ∧
      (work.own = true → work.container.releaseId.version = r.version ∧ s.object.buffer = [])
  | .setVersion => s.object.version ≠ r.version ∧ s.writer = some r.version ∧ s.object.buffer = []
  | _ => True

/-- What is recorded of the facts. -/
structure Shared.Tagged (s : Shared E) : Prop where
  /-- Every fact in the buffer has a version. -/
  length : s.tags.length = s.object.buffer.length
  /-- The session has not been moved from it. -/
  tags : ∀ tag ∈ s.tags, tag = s.object.version
  /-- The facts replayed were replayed by it. -/
  replays : ∀ replay ∈ s.replays, replay.1 = replay.2

/-- The bytes were written by the session's version. -/
def Shared.Written (s : Shared E) : Prop :=
  ∀ bytes, s.object.session = some bytes → s.writer = some s.object.version

/-- What the version, the bytes and the facts of two states have in common. -/
structure Shared.SameVersions (s s' : Shared E) : Prop where
  version : s'.object.version = s.object.version
  session : s'.object.session = s.object.session
  buffer : s'.object.buffer = s.object.buffer
  writer : s'.writer = s.writer
  tags : s'.tags = s.tags
  replays : s'.replays = s.replays

section Same

variable {s s' : Shared E} {r : ReleaseId} {pc : Statement E}

theorem Shared.Tagged.of_same (h : s.Tagged) (hs : s.SameVersions s') : s'.Tagged :=
  ⟨by rw [hs.tags, hs.buffer]; exact h.length, by rw [hs.tags, hs.version]; exact h.tags,
    by rw [hs.replays]; exact h.replays⟩

theorem Shared.Written.of_same (h : s.Written) (hs : s.SameVersions s') : s'.Written := by
  intro bytes hbytes
  rw [hs.session] at hbytes
  rw [hs.writer, hs.version]
  exact h bytes hbytes

/-- A fact that is added while the session's version is current. -/
theorem Shared.Tagged.offer (h : s.Tagged) {fact : F} {version : JString}
    (hversion : version = s.object.version) : (s.offer fact version).Tagged := by
  refine ⟨?_, fun tag htag => ?_, h.replays⟩
  · have hlength := h.length
    simp [Shared.offer, hlength]
  · rcases List.mem_append.1 htag with htag | htag
    · exact h.tags tag htag
    · exact (List.mem_singleton.1 htag).trans hversion

/-- A fact that is replayed by the session's version. -/
theorem Shared.Tagged.remove (h : s.Tagged) {fact : F} {rest : List F} {version : JString}
    (hbuffer : s.object.buffer = fact :: rest) (hversion : version = s.object.version) :
    (s.remove rest version).Tagged := by
  have hlength := h.length
  cases htags : s.tags with
  | nil =>
    rw [htags, hbuffer] at hlength
    cases hlength
  | cons tag tags =>
    rw [htags, hbuffer] at hlength
    have htag : tag = s.object.version := h.tags tag (by rw [htags]; exact List.mem_cons_self)
    refine ⟨?_, fun u hu => ?_, fun replay hreplay => ?_⟩
    · simpa [Shared.remove, htags] using hlength
    · have hu : u ∈ tags := by simpa [Shared.remove, htags] using hu
      exact h.tags u (by rw [htags]; exact List.mem_cons_of_mem _ hu)
    · simp only [Shared.remove, htags, List.head?_cons, Option.toList_some, List.map_cons,
        List.map_nil, List.mem_append, List.mem_singleton] at hreplay
      rcases hreplay with hreplay | rfl
      · exact h.replays replay hreplay
      · exact htag.trans hversion.symm

/-- A statement that does not upgrade relies on nothing but the version. -/
theorem Statement.Agrees.of_version (h : pc.Agrees r s) (hpc : pc.upgrading = false)
    (hversion : s'.object.version = s.object.version) : pc.Agrees r s' := by
  cases pc with
  | newContainer | deserialize | update | setVersion => cases hpc
  | build | offer => exact hversion.trans h
  | replay work begun => exact ⟨h.1.trans hversion.symm, by rw [hversion]; exact h.2⟩
  | fire work | store work =>
    have hown : work.own = false := hpc
    exact ⟨by rw [hversion]; exact h.1, fun h' => by rw [hown] at h'; cases h'⟩
  | _ => trivial

/-- A statement relies on the version, the writer and the buffer only. -/
theorem Statement.Agrees.of_same (h : pc.Agrees r s) (hs : s.SameVersions s') : pc.Agrees r s' := by
  cases pc <;> simp only [Statement.Agrees, hs.version, hs.buffer, hs.writer] at h ⊢ <;> exact h

/-- A statement that upgrades relies on the version being old. -/
theorem Statement.Agrees.ne_of_upgrading (h : pc.Agrees r s) (hpc : pc.upgrading = true) :
    s.object.version ≠ r.version := by
  cases pc with
  | newContainer => exact h
  | deserialize | update | setVersion => exact h.1
  | replay work begun => exact h.2.1 hpc
  | fire work | store work => exact h.1.1 hpc
  | _ => cases hpc

theorem Statement.mapWork_versioned (g : Work E → Work E) (pc : Statement E) :
    (pc.mapWork g).versioned = pc.versioned := by
  cases pc <;> rfl

/-- A call that does not rely on the version relies on nothing. -/
theorem Statement.Agrees.of_unversioned (h : pc.versioned = false) : pc.Agrees r s := by
  cases pc <;> trivial

theorem Statement.versioned_of_upgrading (h : pc.upgrading = true) : pc.versioned = true := by
  cases pc <;> first | rfl | cases h

end Same

/-! ## What a statement does to the versions -/

section Effect

/-- A container that an upgrade makes is of the version it is asked for. -/
theorem RulesManager.newKieContainer_version {rm : RulesManager} {version : JString}
    {container : KieContainer} (hversion : E.isEmpty version = false)
    (h : rm.newKieContainer E version = .ok container) :
    container.releaseId.version = version := by
  simp only [RulesManager.newKieContainer, except_bind_eq_ok] at h
  obtain ⟨-, -, h⟩ := h
  cases h
  simp [RulesManager.newReleaseId, hversion]

variable [Fact F] {rm : RulesManager} {job : Job F} {s s' : Shared E} {pc pc' : Statement E}
  {out : List (Delivery E.Message)} {r : ReleaseId}

/-- A call that does not rely on the version changes nothing that a version depends on, and comes to
rely on it by looking at it. -/
theorem Statement.Runs.unversioned (h : Statement.Runs rm job s pc pc' s' out)
    (hpc : pc.versioned = false) :
    s.SameVersions s' ∧ (pc'.versioned = false ∨ ∃ needed, pc = .check ∧
      s.object.isUpgradeNeeded rm = .ok needed ∧
      pc' = if needed then .newContainer else job.afterUpgrade) := by
  have hsame : ∀ s' : Shared E, s'.object.version = s.object.version →
      s'.object.session = s.object.session → s'.object.buffer = s.object.buffer →
      s'.writer = s.writer → s'.tags = s.tags → s'.replays = s.replays → s.SameVersions s' :=
    fun s' h₁ h₂ h₃ h₄ h₅ h₆ => ⟨h₁, h₂, h₃, h₄, h₅, h₆⟩
  cases h with
  | check needed hneeded => exact ⟨hsame s rfl rfl rfl rfl rfl rfl, .inr ⟨needed, rfl, hneeded, rfl⟩⟩
  | waitForSnapshot | needToSave | compareAndSet =>
    exact ⟨hsame _ rfl rfl rfl rfl rfl rfl, .inl (by split <;> rfl)⟩
  | readLatch | await | count | newLatch | execute | release | countDown =>
    exact ⟨hsame _ rfl rfl rfl rfl rfl rfl, .inl rfl⟩
  | _ => cases hpc

omit [Fact F] in
/-- After a replay an upgrade finds the buffer empty, and any other call a current session. -/
theorem Job.afterReplay_agrees (job : Job F) (work : Work E)
    (hown : work.own = true ↔ s.object.version ≠ r.version)
    (hbuffer : work.own = true → s.object.buffer = []) :
    (job.afterReplay work).Agrees r s ∧
      ((job.afterReplay work).upgrading = true → work.own = true) := by
  unfold Job.afterReplay
  cases ho : work.own with
  | true => exact ⟨⟨hown.1 ho, ho, hbuffer ho⟩, fun _ => rfl⟩
  | false =>
    cases job with
    | rebuild => exact ⟨trivial, nofun⟩
    | _ =>
      refine ⟨⟨hown, fun h => ?_⟩, fun h => ?_⟩
      · cases ho.symm.trans h
      · cases ho.symm.trans h

/-- What a statement of a call that relies on the version leaves. -/
structure Statement.Moves (r : ReleaseId) (s s' : Shared E) (pc pc' : Statement E) : Prop where
  /-- The facts keep their versions. -/
  tagged : s'.Tagged
  /-- The next statement can rely on what it relies on. -/
  agrees : pc'.Agrees r s'
  /-- No upgrade begins. -/
  upgrading : pc'.upgrading = true → pc.upgrading = true
  /-- Only an upgrade moves the session. -/
  version : pc.upgrading = false → s'.object.version = s.object.version
  /-- A session has a version. -/
  nonempty : E.isEmpty s'.object.version = false
  /-- The bytes are of the session's version, but for the moment before an upgrade writes it. -/
  written : pc' ≠ .setVersion → pc = .setVersion ∨ s.Written → s'.Written

omit [Fact F] in
/-- A statement that only reads must see to what the next one relies on. -/
theorem Statement.Moves.reads (htagged : s.Tagged) (hs : E.isEmpty s.object.version = false)
    (hpc : pc ≠ .setVersion) (hagrees : pc'.Agrees r s)
    (hup : pc'.upgrading = true → pc.upgrading = true) : Statement.Moves r s s pc pc' :=
  ⟨htagged, hagrees, hup, fun _ => rfl, hs, fun _ hw => hw.resolve_left hpc⟩

omit [Fact F] in
/-- The update of an upgrade moves the session to the node's version, unless it reports errors. -/
theorem Statement.Moves.update (hr : rm.Running r) (htagged : s.Tagged)
    (hs : E.isEmpty s.object.version = false)
    {work : Work E} {target : ReleaseId} {container : KieContainer} {session : KieSession E}
    (hagrees : (Statement.update work).Agrees r s) (htarget : rm.getReleaseId = .ok target)
    (hupdate : work.container.updateToVersion target work.session = .ok (container, session))
    (hok : E.updateToVersion work.container.releaseId r ≠ .errors) :
    Statement.Moves r s s (.update work)
      (.store { work with container := container, session := session }) := by
  rw [hr.getReleaseId] at htarget
  cases htarget
  obtain ⟨hold, hown, hbuffer⟩ := hagrees
  have hmoved : container.releaseId.version = r.version := by
    unfold KieContainer.updateToVersion at hupdate
    split at hupdate
    · cases hupdate
      rfl
    · exact absurd ‹_› hok
    · cases hupdate
  exact .reads htagged hs nofun ⟨iff_of_true hown hold, fun _ => ⟨hmoved, hbuffer⟩⟩ fun _ => rfl

omit [Fact F] in
/-- What is stored is of the version that the session has, or is about to get. -/
theorem Statement.Moves.store (hr : rm.Running r) (htagged : s.Tagged)
    (hs : E.isEmpty s.object.version = false)
    {work : Work E} {container : KieContainer} {bytes : JBytes}
    (hagrees : (Statement.store work).Agrees r s)
    (hcontainer : (if work.own then .ok work.container else rm.getKieContainer) = .ok container) :
    Statement.Moves r s (s.store bytes container.releaseId.version) (.store work)
      (if work.own then .setVersion else .release) := by
  obtain ⟨hown, hmoved⟩ := hagrees
  have htagged' : (s.store bytes container.releaseId.version).Tagged :=
    ⟨htagged.length, htagged.tags, htagged.replays⟩
  cases ho : work.own with
  | true =>
    -- The upgrade has stored the bytes, and has still to write the version.
    rw [ho, if_pos rfl] at hcontainer
    cases hcontainer
    obtain ⟨hmoved, hbuffer⟩ := hmoved ho
    refine ⟨htagged', ⟨hown.1 ho, congrArg some hmoved, hbuffer⟩, fun _ => ho, fun _ => rfl, hs, ?_⟩
    exact fun h => absurd rfl h
  | false =>
    -- The node's container has stored the bytes, and the version is the node's.
    rw [ho, if_neg Bool.false_ne_true, hr.getKieContainer] at hcontainer
    cases hcontainer
    have hcurrent : s.object.version = r.version := by
      by_contra hne
      cases ho.symm.trans (hown.2 hne)
    refine ⟨htagged', trivial, nofun, fun _ => rfl, hs, fun _ _ bytes' hbytes' => ?_⟩
    exact congrArg some hcurrent.symm

omit [Fact F] in
/-- The version of an upgrade is written for its bytes, when the buffer is empty. -/
theorem Statement.Moves.setVersion (htagged : s.Tagged) (hversion : E.isEmpty r.version = false)
    (hagrees : (Statement.setVersion : Statement E).Agrees r s) :
    Statement.Moves r s (s.setObject fun o => { o with version := r.version }) .setVersion
      job.afterUpgrade := by
  obtain ⟨hold, hwriter, hbuffer⟩ := hagrees
  -- No fact is left that was added under the old version.
  have htags : s.tags = [] := by
    have hlength := htagged.length
    rw [hbuffer] at hlength
    exact List.length_eq_zero_iff.1 hlength
  refine ⟨⟨htagged.length, ?_, htagged.replays⟩, ?_, fun _ => rfl, nofun, hversion, ?_⟩
  · show ∀ tag ∈ s.tags, _
    rw [htags]
    nofun
  · cases job <;> trivial
  · exact fun _ _ bytes hbytes => hwriter

/-- A call that relies on the version can do so. -/
theorem Statement.Runs.versioned (h : Statement.Runs rm job s pc pc' s' out)
    (hr : rm.Running r) (hversion : E.isEmpty r.version = false)
    (hs : E.isEmpty s.object.version = false)
    (htagged : s.Tagged) (hagrees : pc.Agrees r s) (hpc : pc.versioned = true)
    (hupdate : ∀ work, pc = .update work → E.updateToVersion work.container.releaseId r ≠ .errors) :
    Statement.Moves r s s' pc pc' := by
  cases h with
  | newContainer container hcontainer =>
    have hcontainer' := RulesManager.newKieContainer_version hs hcontainer
    exact .reads htagged hs nofun ⟨hagrees, hcontainer'⟩ fun _ => rfl
  | deserialize container session hsession =>
    exact .reads htagged hs nofun ⟨hagrees.2, iff_of_true rfl hagrees.1⟩ fun _ => rfl
  | build container session hcontainer hsession =>
    rw [hr.getKieContainer] at hcontainer
    cases hcontainer
    have hold : s.object.version = r.version := hagrees
    exact .reads htagged hs nofun ⟨hold.symm, iff_of_false nofun (absurd hold)⟩ nofun
  | nothing work hbuffer =>
    obtain ⟨hnext, hup⟩ := Job.afterReplay_agrees job
      { work with session := rm.registerChannels work.session } hagrees.2 fun _ => hbuffer
    exact .reads htagged hs nofun hnext hup
  | begin work hbuffer => exact .reads htagged hs nofun hagrees id
  | remove work fact rest advanced inserted hbuffer hadvance hinsert =>
    -- The fact that is taken out is replayed by the version that it was added under.
    exact ⟨htagged.remove hbuffer hagrees.1, hagrees, id, fun _ => rfl, hs,
      fun _ h => h.resolve_left nofun⟩
  | done work hbuffer =>
    refine ⟨⟨htagged.length, htagged.tags, htagged.replays⟩,
      ⟨hagrees.2, fun _ => ⟨hagrees.1, hbuffer⟩⟩, id, fun _ => rfl, hs, ?_⟩
    exact fun _ h => h.resolve_left nofun
  | fire work fired out hfire =>
    obtain ⟨hnext, hup⟩ := Job.afterReplay_agrees job
      { work with session := rm.registerChannels fired } hagrees.1 fun h => (hagrees.2 h).2
    exact .reads htagged hs nofun hnext hup
  | update work target container session htarget hup =>
    exact .update hr htagged hs hagrees htarget hup (hupdate work rfl)
  | store work container bytes hcontainer hbytes => exact .store hr htagged hs hagrees hcontainer
  | setVersion r' hr' =>
    rw [hr.getReleaseId] at hr'
    cases hr'
    exact .setVersion htagged hversion hagrees
  | offer fact =>
    -- The version that the node reports is the one that the check has compared with.
    have hcurrent : rm.currentVersion = s.object.version := by
      have hold : s.object.version = r.version := hagrees
      rw [hold, RulesManager.currentVersion, hr.releaseId]
      rfl
    refine ⟨htagged.offer hcurrent, trivial, nofun, fun _ => rfl, hs, ?_⟩
    exact fun _ h => h.resolve_left nofun
  | _ => cases hpc

omit [Fact F] in
/-- What is recorded besides the versions does not matter. -/
theorem Statement.Moves.of_same {s₁ : Shared E} (h : Statement.Moves r s s₁ pc pc')
    (hs : s₁.SameVersions s') : Statement.Moves r s s' pc pc' :=
  ⟨h.tagged.of_same hs, h.agrees.of_same hs, h.upgrading, fun hpc => hs.version.trans (h.version hpc),
    by rw [hs.version]; exact h.nonempty, fun hpc hw => (h.written hpc hw).of_same hs⟩

omit [Fact F] in
theorem Job.afterThrow_versioned (job : Job F) :
    (job.afterThrow : Statement E).versioned = false := by
  cases job <;> rfl

/-- A call that throws may have lost a fact, but mistakes no version. -/
theorem Statement.Moves.of_error {e : Throwable} (hr : rm.Running r)
    (hs : E.isEmpty s.object.version = false)
    (htagged : s.Tagged) (hagrees : pc.Agrees r s)
    (h : next rm job pc ⟨s, []⟩ = .error e ⟨s', out⟩) :
    Statement.Moves r s s' pc job.afterThrow := by
  have hno : pc ≠ .setVersion := by
    rintro rfl
    simp only [next, hr.getReleaseId, bind_eq_error, lift_eq_error, modifyThis_run, pure_run,
      reduceCtorEq, false_and, exists_false, and_false, or_self] at h
  have hthrow : (job.afterThrow : Statement E).Agrees r s' := by cases job <;> trivial
  have hup : (job.afterThrow : Statement E).upgrading = true → pc.upgrading = true := by
    intro hthrown
    cases job <;> cases hthrown
  rcases next_eq_error rm h with ⟨rfl, -⟩ | ⟨-, work, fact, rest, rfl, hbuffer, rfl⟩
  · exact ⟨htagged, hthrow, hup, fun _ => rfl, hs, fun _ h => h.resolve_left hno⟩
  · exact ⟨htagged.remove hbuffer hagrees.1, hthrow, hup, fun _ => rfl, hs,
      fun _ h => h.resolve_left hno⟩

/-- A step of a thread changes nothing that versions depend on, or relies on the version. -/
theorem Thread.step_versions {t t' : Thread E} (hr : rm.Running r)
    (hversion : E.isEmpty r.version = false)
    (hs : E.isEmpty s.object.version = false) (htagged : s.Tagged) (hagrees : t.pc.Agrees r s)
    (hupdate : ∀ work, t.pc = .update work →
      E.updateToVersion work.container.releaseId r ≠ .errors)
    (h : t.step rm s = some (s', t')) :
    (t.pc.versioned = false ∧ s.SameVersions s' ∧ (t'.pc.versioned = false ∨
      ∃ needed, t.pc = .check ∧ s.object.isUpgradeNeeded rm = .ok needed ∧
        t'.pc = if needed then .newContainer else t.job.afterUpgrade)) ∨
    t.pc.versioned = true ∧ Statement.Moves r s s' t.pc t'.pc := by
  have hsent : ∀ (s₁ : Shared E) out, s₁.SameVersions { s₁ with sent := s₁.sent ++ out } :=
    fun s₁ out => ⟨rfl, rfl, rfl, rfl, rfl, rfl⟩
  rcases Thread.step_eq_some rm h with ⟨pc, s₁, out, hruns, rfl, rfl⟩ | ⟨e, s₁, out, herror, rfl, rfl⟩
  · cases hv : t.pc.versioned with
    | false =>
      obtain ⟨hsame, hnext⟩ := hruns.unversioned hv
      exact .inl ⟨rfl, ⟨hsame.version, hsame.session, hsame.buffer, hsame.writer, hsame.tags,
        hsame.replays⟩, hnext⟩
    | true =>
      exact .inr ⟨rfl, (hruns.versioned hr hversion hs htagged hagrees hv hupdate).of_same
        (hsent s₁ out)⟩
  · cases hv : t.pc.versioned with
    | false =>
      refine .inl ⟨rfl, ?_, .inl t.job.afterThrow_versioned⟩
      rcases next_eq_error rm herror with ⟨rfl, -⟩ | ⟨-, work, fact, rest, hpc, -⟩
      · exact hsent _ out
      · rw [hpc] at hv
        cases hv
    | true =>
      exact .inr ⟨rfl, (Statement.Moves.of_error hr hs htagged hagrees herror).of_same (hsent s₁ out)⟩

end Effect

/-! ## The invariant -/

namespace System

/-- The invariant of a settled run, on a node that runs the release `r`. -/
structure Faithful (r : ReleaseId) (s : System E) : Prop where
  /-- The node runs it. -/
  running : s.rules.Running r
  /-- It has a version. -/
  current : E.isEmpty r.version = false
  /-- The session has one. -/
  version : E.isEmpty s.pool.shared.object.version = false
  /-- The facts keep the versions at which they were added. -/
  tagged : s.pool.shared.Tagged
  /-- The bytes are of the session's version, but for the moment before an upgrade writes it. -/
  written : (∀ t ∈ s.pool.threads, t.pc ≠ .setVersion) → s.pool.shared.Written
  /-- Every statement can rely on what it relies on. -/
  agrees : ∀ t ∈ s.pool.threads, t.pc.Agrees r s.pool.shared
  /-- A call that upgrades is the only one that relies on the version. -/
  upgradeAlone : ∀ i t, s.pool.threads[i]? = some t → t.pc.upgrading = true →
    s.pool.Alone (fun t => t.pc.versioned = true) i

variable {s s' : System E} {r : ReleaseId}

/-- A step of a call that relies on the version keeps the invariant. -/
theorem Faithful.step_versioned (hi : s.Faithful r) {i : ℕ} {t t' : Thread E} {shared : Shared E}
    (ht : s.pool.threads[i]? = some t) (hv : t.pc.versioned = true)
    (hmoves : Statement.Moves r s.pool.shared shared t.pc t'.pc) :
    Faithful r { s with pool := s.pool.set i shared t' } := by
  have hmem := Pool.mem_of_getElem? ht
  -- Another thread that upgrades would have this one rely on nothing.
  have hothers : ∀ j u, j ≠ i → s.pool.threads[j]? = some u → u.pc.upgrading = false := by
    intro j u hj hu
    by_contra hup
    exact hi.upgradeAlone j u hu (by simpa using hup) i t (Ne.symm hj) ht hv
  refine ⟨hi.running, hi.current, hmoves.nonempty, hmoves.tagged, fun hno => ?_, fun u hu => ?_,
    fun j u hu hup => ?_⟩
  · refine hmoves.written (hno t' (Pool.mem_of_getElem? (Pool.getElem?_set_self ht))) ?_
    by_cases hpc : t.pc = .setVersion
    · exact .inl hpc
    · refine .inr (hi.written fun u hu => ?_)
      rcases Pool.mem_or_mem_set ht hu with rfl | hu
      · exact hpc
      · exact hno u hu
  · rcases Pool.mem_set ht hu with rfl | ⟨j, hj, hu⟩
    · exact hmoves.agrees
    have hagrees := hi.agrees u (Pool.mem_of_getElem? hu)
    cases hup : t.pc.upgrading with
    | true => exact .of_unversioned (by simpa using hi.upgradeAlone i t ht hup j u hj hu)
    | false => exact hagrees.of_version (hothers j u hj hu) (hmoves.version hup)
  · rw [Pool.getElem?_set ht] at hu
    by_cases hji : j = i
    · subst hji
      rw [if_pos rfl] at hu
      cases hu
      exact (hi.upgradeAlone j t ht (hmoves.upgrading hup)).set ht
    · rw [if_neg hji] at hu
      cases (hothers j u hji hu).symm.trans hup

/-- What a call comes to rely on when it looks at the version, or does not: it can, an upgrade begins
only alone, and where it relies on the version no other call upgrades. -/
theorem Faithful.agrees_of_check (hi : s.Faithful r) {i : ℕ} {t t' : Thread E}
    (hnext : t'.pc.versioned = false ∨ ∃ needed, t.pc = .check ∧
      s.pool.shared.object.isUpgradeNeeded s.rules = .ok needed ∧
      t'.pc = if needed then .newContainer else t.job.afterUpgrade)
    (halone : s.pool.shared.object.isUpgradeNeeded s.rules = .ok true → t.pc = .check →
      s.pool.Alone (fun t => t.pc.versioned = true) i) :
    t'.pc.Agrees r s.pool.shared ∧
      (t'.pc.upgrading = true → s.pool.Alone (fun t => t.pc.versioned = true) i) ∧
      (t'.pc.versioned = true → ∀ j u, j ≠ i → s.pool.threads[j]? = some u →
        u.pc.upgrading = false) := by
  rcases hnext with hno | ⟨needed, hpc, hneeded, hpc'⟩
  · refine ⟨.of_unversioned hno, fun hup => ?_, fun hv' => ?_⟩
    · cases hno.symm.trans (Statement.versioned_of_upgrading hup)
    · cases hno.symm.trans hv'
  rw [hpc']
  have hdiffers : (s.pool.shared.object.version != r.version) = needed := by
    unfold HAKieSerializedSession.isUpgradeNeeded at hneeded
    rw [hi.running.getReleaseId] at hneeded
    exact Except.ok.inj hneeded
  cases needed with
  | true =>
    have hothers := halone hneeded hpc
    have hold : s.pool.shared.object.version ≠ r.version := by simpa using hdiffers
    refine ⟨hold, fun _ => hothers, fun _ j u hj hu => ?_⟩
    by_contra hup
    exact hothers j u hj hu (Statement.versioned_of_upgrading (by simpa using hup))
  | false =>
    -- The session is on the node's version, which no upgrade could rely on.
    have hcurrent : s.pool.shared.object.version = r.version := by simpa using hdiffers
    refine ⟨?_, fun hup => ?_, fun _ j u hj hu => ?_⟩
    · cases t.job <;> trivial
    · cases hjob : t.job <;> rw [hjob] at hup <;> cases hup
    · by_contra hup
      exact (hi.agrees u (Pool.mem_of_getElem? hu)).ne_of_upgrading (by simpa using hup) hcurrent

/-- A step of a call that does not rely on the version keeps the invariant, if it begins an upgrade
only alone. -/
theorem Faithful.step_unversioned (hi : s.Faithful r) {i : ℕ} {t t' : Thread E} {shared : Shared E}
    (ht : s.pool.threads[i]? = some t) (hv : t.pc.versioned = false)
    (hsame : s.pool.shared.SameVersions shared)
    (hnext : t'.pc.versioned = false ∨ ∃ needed, t.pc = .check ∧
      s.pool.shared.object.isUpgradeNeeded s.rules = .ok needed ∧
      t'.pc = if needed then .newContainer else t.job.afterUpgrade)
    (halone : s.pool.shared.object.isUpgradeNeeded s.rules = .ok true → t.pc = .check →
      s.pool.Alone (fun t => t.pc.versioned = true) i) :
    Faithful r { s with pool := s.pool.set i shared t' } := by
  obtain ⟨hagrees, hupAlone, hupNone⟩ := hi.agrees_of_check hnext halone
  refine ⟨hi.running, hi.current, by rw [Pool.set_shared, hsame.version]; exact hi.version,
    hi.tagged.of_same hsame, fun hno => ?_, fun u hu => ?_, fun j u hu hup => ?_⟩
  · refine (hi.written fun u hu => ?_).of_same hsame
    rcases Pool.mem_or_mem_set ht hu with rfl | hu
    · rintro hpc
      rw [hpc] at hv
      cases hv
    · exact hno u hu
  · rcases Pool.mem_set ht hu with rfl | ⟨j, hj, hu⟩
    · exact hagrees.of_same hsame
    · exact (hi.agrees u (Pool.mem_of_getElem? hu)).of_same hsame
  · rw [Pool.getElem?_set ht] at hu
    by_cases hji : j = i
    · subst hji
      rw [if_pos rfl] at hu
      cases hu
      exact (hupAlone hup).set ht
    · rw [if_neg hji] at hu
      -- Another call upgrades, so this one has not come to rely on the version.
      have hv' : t'.pc.versioned ≠ true := by
        intro hv'
        cases (hupNone hv' j u hji hu).symm.trans hup
      exact (hi.upgradeAlone j u hu hup).set_other ht hv'

/-- A change of the node's rules keeps the invariant where no call relies on the version. -/
theorem Faithful.updateToVersion (hi : s.Faithful r) (version : JString)
    (hok : ∀ t ∈ s.pool.threads, t.pc.versioned = false) :
    ∃ r', (s.updateToVersion version).Faithful r' := by
  rcases s.updateToVersion_cases version with hsame | ⟨ok, rules, hrules, hs'⟩
  · exact ⟨r, by rw [hsame]; exact hi⟩
  have hrunning := (RulesManager.updateToVersion_running hi.running hrules).2
  have hnonempty : E.isEmpty version = false := by
    cases hempty : E.isEmpty version with
    | false => rfl
    | true =>
      simp [RulesManager.updateToVersion, hi.running.checkStatus, hempty, bind,
        Except.bind] at hrules
  rw [hs']
  cases ok with
  | false =>
    refine ⟨r, hrunning, hi.current, hi.version, hi.tagged, hi.written, hi.agrees, hi.upgradeAlone⟩
  | true =>
    have hunversioned : ∀ t ∈ (s.pool.map fun t => { t with
        pc := t.pc.mapWork (·.migrate (rules.newReleaseId version)) }).threads,
        t.pc.versioned = false := by
      intro t ht
      obtain ⟨u, hu, rfl⟩ := List.mem_map.1 ht
      rw [Statement.mapWork_versioned]
      exact hok u hu
    refine ⟨s.rules.newReleaseId version, hrunning, hnonempty, hi.version, hi.tagged, fun _ => ?_,
      fun t ht => .of_unversioned (hunversioned t ht), fun i t ht hup => ?_⟩
    · refine hi.written fun t ht hpc => ?_
      have hno := hok t ht
      rw [hpc] at hno
      cases hno
    · have hno := hunversioned t (List.mem_of_getElem? ht)
      cases hno.symm.trans (Statement.versioned_of_upgrading hup)

variable [Fact F]

/-- A settled action keeps the invariant. -/
theorem Faithful.step {a : Action F} (hi : s.Faithful r) (hok : s.Settled a = true)
    (h : (lts E).step s a = some s') : ∃ r', s'.Faithful r' := by
  cases a with
  | call job =>
    obtain ⟨queued, rfl⟩ := call_eq_some h
    have hstart : (job.start : Statement E).versioned = false := by cases job <;> rfl
    have hsame : s.pool.shared.SameVersions { s.pool.shared with queued := queued } :=
      ⟨rfl, rfl, rfl, rfl, rfl, rfl⟩
    refine ⟨r, hi.running, hi.current, hi.version, hi.tagged.of_same hsame, fun hno => ?_,
      fun t ht => ?_, fun i t ht hup => ?_⟩
    · exact (hi.written fun t ht => hno t (Pool.mem_spawn.2 (.inl ht))).of_same hsame
    · rcases Pool.mem_spawn.1 ht with ht | rfl
      · exact (hi.agrees t ht).of_same hsame
      · exact .of_unversioned hstart
    · rcases Pool.getElem?_spawn ht with ht | rfl
      · exact (hi.upgradeAlone i t ht hup).spawn (by simp [hstart])
      · cases hstart.symm.trans (Statement.versioned_of_upgrading hup)
  | step i =>
    obtain ⟨t, shared, t', ht, hstep, rfl⟩ := step_eq_some h
    have hmem := Pool.mem_of_getElem? ht
    simp only [Settled, ht, Option.all_some] at hok
    refine ⟨r, ?_⟩
    have hupdate : ∀ work, t.pc = .update work →
        E.updateToVersion work.container.releaseId r ≠ .errors := by
      intro work hpc
      simpa [hpc, hi.running.releaseId] using hok
    rcases Thread.step_versions hi.running hi.current hi.version hi.tagged (hi.agrees t hmem) hupdate
      hstep with ⟨hv, hsame, hnext⟩ | ⟨hv, hmoves⟩
    · refine hi.step_unversioned ht hv hsame hnext fun hneeded hpc => ?_
      rw [Pool.alone_iff]
      rw [hpc, hneeded] at hok
      simpa [Except.toOption] using hok
    · exact hi.step_versioned ht hv hmoves
  | updateToVersion version =>
    cases h
    exact hi.updateToVersion version (by simpa [Settled] using hok)

/-- In a settled run the version of the session is that of the container that wrote its bytes,
except between the two writes of an upgrade, every fact that was replayed was replayed by the
version of the node's rules when it was added, and the facts in the buffer were added at the version
that the session still has. -/
theorem version_faithful {rules : RulesManager} {object : HAKieSerializedSession F}
    (hrules : rules.Running r) (hcurrent : E.isEmpty r.version = false)
    (hversion : E.isEmpty object.version = false)
    {actions : List (Action F)}
    (hsettled : (lts E).Guarded (fun s a => s.Settled a = true) (start rules object) actions)
    (h : (lts E).exec (start rules object) actions = some s) :
    ((∀ t ∈ s.pool.threads, t.pc ≠ .setVersion) →
        ∀ bytes, s.pool.shared.object.session = some bytes →
          s.pool.shared.writer = some s.pool.shared.object.version) ∧
      (∀ replay ∈ s.pool.shared.replays, replay.1 = replay.2) ∧
      s.pool.shared.tags = s.pool.shared.object.buffer.map fun _ => s.pool.shared.object.version := by
  have hstart : (start rules object : System E).Faithful r := by
    refine ⟨hrules, hcurrent, hversion, ⟨by simp [start], fun tag htag => ?_, by simp [start]⟩,
      fun _ bytes hbytes => ?_, (by intro t ht; cases ht), (by intro i t ht; cases ht)⟩
    · obtain ⟨-, -, rfl⟩ := List.mem_map.1 htag
      rfl
    · simp only [start] at hbytes ⊢
      rw [hbytes]
      rfl
  have hstep : ∀ (s : System E) (a : Action F) (s' : System E), (∃ r, s.Faithful r) →
      s.Settled a = true → (lts E).step s a = some s' → ∃ r, s'.Faithful r := by
    rintro s a s' ⟨r, hi⟩ hok hs
    exact hi.step hok hs
  obtain ⟨r', hinv⟩ := (lts E).exec_guarded_invariant (fun s a => s.Settled a = true)
    (fun s => ∃ r, s.Faithful r) hstep ⟨r, hstart⟩ hsettled h
  refine ⟨hinv.written, hinv.tagged.replays, ?_⟩
  rw [List.map_const', ← hinv.tagged.length, List.eq_replicate_iff]
  exact ⟨rfl, hinv.tagged.tags⟩

/-- A session with a reading, which a snapshot saves; the rules change, and the next `add` upgrades
the session. -/
def changeAfterSnapshot : List (Action Reading) :=
  [.call (.add ⟨1⟩)] ++ steps 0 4 ++ [.call .createSnapshot] ++ steps 1 3 ++ [.call .snapshot] ++
    steps 2 9 ++ [.updateToVersion (jstr "2"), .call (.add ⟨2⟩)] ++ steps 3 10

/-- The version is right. -/
theorem version_faithful_changeAfterSnapshot :
    ∃ s : System Recorder.engine,
      (lts _).exec (start (Recorder.manager (jstr "1")) { version := jstr "1" })
        changeAfterSnapshot = some s ∧
      s.pool.shared.object.session.isSome ∧
      s.pool.shared.writer = some s.pool.shared.object.version ∧
      s.pool.shared.object.version = jstr "2" := by
  have hrun : ((lts Recorder.engine).exec (start (Recorder.manager (jstr "1"))
      { version := jstr "1" }) changeAfterSnapshot).any fun s =>
        (s.pool.threads.all fun t => t.pc.isBlocked s.pool.shared) &&
        decide (s.pool.shared.object.session.isSome ∧
          s.pool.shared.object.version = jstr "2") := by
    decide +kernel
  obtain ⟨s, hs, h⟩ := (Option.any_eq_true _ _).1 hrun
  rw [Bool.and_eq_true, decide_eq_true_iff, List.all_eq_true] at h
  obtain ⟨hreturned, hstored, hversion⟩ := h
  obtain ⟨bytes, hbytes⟩ := Option.isSome_iff_exists.1 hstored
  have hwriter := (version_faithful (Recorder.manager_running _) (by decide) (by decide)
    (by decide +kernel) hs).1
  refine ⟨s, hs, hstored, hwriter (fun t ht hpc => ?_) bytes hbytes, hversion⟩
  have hblocked := hreturned t ht
  rw [hpc] at hblocked
  cases hblocked

/-- The rules change when the snapshot has looked at the version. -/
def changeDuringSnapshot : List (Action Reading) :=
  [.call (.add ⟨1⟩)] ++ steps 0 4 ++ [.call .createSnapshot] ++ steps 1 3 ++ [.call .snapshot] ++
    steps 2 1 ++ [.updateToVersion (jstr "2")] ++ steps 2 8

/-- Every call has returned; the bytes are of the new version, the session has the old one, and the
new rules have replayed a reading of the old. -/
theorem changeDuringSnapshot_mistags :
    ∃ s : System Recorder.engine,
      (lts _).exec (start (Recorder.manager (jstr "1")) { version := jstr "1" })
        changeDuringSnapshot = some s ∧
      s.pool.threads.length = 3 ∧ (s.pool.threads.all fun t => t.pc.isBlocked s.pool.shared) ∧
      s.pool.shared.object.session.isSome ∧ s.pool.shared.writer = some (jstr "2") ∧
      s.pool.shared.object.version = jstr "1" ∧
      s.pool.shared.replays = [(jstr "1", jstr "2")] := by
  have hrun : ((lts Recorder.engine).exec (start (Recorder.manager (jstr "1"))
      { version := jstr "1" }) changeDuringSnapshot).any fun s =>
        decide (s.pool.threads.length = 3 ∧
          (s.pool.threads.all fun t => t.pc.isBlocked s.pool.shared) ∧
          s.pool.shared.object.session.isSome ∧ s.pool.shared.writer = some (jstr "2") ∧
          s.pool.shared.object.version = jstr "1" ∧
          s.pool.shared.replays = [(jstr "1", jstr "2")]) := by
    decide +kernel
  obtain ⟨s, hs, h⟩ := (Option.any_eq_true _ _).1 hrun
  exact ⟨s, hs, of_decide_eq_true h⟩

end System

end Hacep
