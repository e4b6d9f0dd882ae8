import Hacep.Session.HAKieSession

/-!
# Serialized sessions

`HAKieSerializedSession` is what an owner that is not the primary stores: the bytes of a session,
the version of the rules that wrote them, and the facts that have arrived since. `add` buffers a
fact and asks for a snapshot when the buffer is over its limit; the snapshot replays the buffer into
the session and stores its bytes; `rebuild` replays it and hands the session out. All three first
move the stored session to the current rules where the version is not the current one, in
`rebuildSessionAndUpgrade`.

The methods here run one after the other: the snapshot that `createSnapshot` hands to the executor
is the separate call `snapshotTask`, and `await()` on the latch of a pending snapshot is that call,
since only the pending snapshot counts the latch down.

Each method has a lemma for its return and, where it can throw, one for its exception. They speak
of `history`: the facts in the stored bytes, then the facts in the buffer.
-/

namespace Hacep

open Java

variable {F : Type}

/-- `HAKieSerializedSession`. `latch` is the count of the latch in use, and `version` is never
`null`: no constructor is given `null`. -/
structure HAKieSerializedSession (F : Type) where
  saving : Bool := false
  latch : ℕ := 0
  version : JString
  session : Option JBytes := none
  size : ℕ := 0
  buffer : List F := []
  deriving DecidableEq

/-- The update of a container that only this call refers to, with the one session made from it.
The results of the update are not looked at. -/
def KieContainer.updateToVersion {E : KieEngine F} (container : KieContainer) (target : ReleaseId)
    (session : KieSession E) : Except Throwable (KieContainer × KieSession E) :=
  match E.updateToVersion container.releaseId target with
  | .completed => .ok (⟨target⟩, ⟨E.migrate target session.state, session.channels⟩)
  | .errors => .ok (container, session)
  | .threw e => .error e

namespace HAKieSerializedSession

variable {E : KieEngine F}

/-- `new HAKieSerializedSession(rulesManager, executor)`. -/
def new (rm : RulesManager) : Except Throwable (HAKieSerializedSession F) := do
  let r ← rm.getReleaseId
  .ok { version := r.version }

/-- `new HAKieSerializedSession(rulesManager, executor, version, session)`. -/
def ofBytes (version : JString) (session : JBytes) : HAKieSerializedSession F :=
  { version := version, session := some session }

/-- `isUpgradeNeeded`. -/
def isUpgradeNeeded (rm : RulesManager) (s : HAKieSerializedSession F) : Except Throwable Bool := do
  let r ← rm.getReleaseId
  .ok (s.version != r.version)

/-- `needToSave`. -/
def needToSave (rm : RulesManager) (s : HAKieSerializedSession F) : Bool :=
  rm.getMaxBufferSize < s.size

/-- `createSnapshot`: where none is pending, one is handed to the executor. -/
def createSnapshot : Call E (HAKieSerializedSession F) Unit := do
  let s ← this
  onlyIf (!s.saving) (modifyThis fun s => { s with saving := true, latch := 1 })

section Replay

variable [Fact F]

/-- The loop of `replayFacts`, on the facts in the buffer. A fact leaves the buffer before the
session takes it. -/
def replayLoop (session : KieSession E) :
    List F → Call E (HAKieSerializedSession F) (KieSession E)
  | [] => pure session
  | fact :: rest => do
    modifyThis fun s => { s with buffer := rest }
    let session ← onLocal session (KieSessionUtils.advanceClock fact)
    let session ← onLocal session (KieSession.insert fact)
    replayLoop session rest

/-- The part of `replayFacts` for a buffer that is not empty. -/
def replayBuffer (rm : RulesManager) (session : KieSession E) :
    Call E (HAKieSerializedSession F) (KieSession E) := do
  let s ← this
  let session ← replayLoop (rm.registerReplayChannels session) s.buffer
  modifyThis fun s => { s with size := 0 }
  onLocal session KieSession.fireAllRules

/-- `replayFacts`. -/
def replayFacts (rm : RulesManager) (session : KieSession E) :
    Call E (HAKieSerializedSession F) (KieSession E) := do
  let s ← this
  let session ← bif s.buffer.isEmpty then pure session else replayBuffer rm session
  pure (rm.registerChannels session)

/-- `buildSession`. -/
def buildSession (rm : RulesManager) : Call E (HAKieSerializedSession F) (KieSession E) := do
  let s ← this
  let container ← lift rm.getKieContainer
  let session ← lift (rm.deserializeOrCreate E container s.session)
  replayFacts rm session

/-- `rebuildSessionAndUpgrade`. -/
def rebuildSessionAndUpgrade (rm : RulesManager) : Call E (HAKieSerializedSession F) Unit := do
  let s ← this
  let container ← lift (rm.newKieContainer E s.version)
  let session ← lift (rm.deserializeOrCreate E container s.session)
  let session ← replayFacts rm session
  let target ← lift rm.getReleaseId
  let (container, session) ← lift (container.updateToVersion target session)
  let bytes ← lift (rm.serialize E container session)
  modifyThis fun s => { s with session := some bytes }
  let current ← lift rm.getReleaseId
  modifyThis fun s => { s with version := current.version }

/-- `if (isUpgradeNeeded()) { rebuildSessionAndUpgrade(); }`. -/
def upgradeIfNeeded (rm : RulesManager) : Call E (HAKieSerializedSession F) Unit := do
  let s ← this
  let needed ← lift (s.isUpgradeNeeded rm)
  onlyIf needed (rebuildSessionAndUpgrade rm)

/-- `add`. -/
def add (rm : RulesManager) (f : F) : Call E (HAKieSerializedSession F) Unit := do
  upgradeIfNeeded rm
  modifyThis fun s => { s with buffer := s.buffer ++ [f], size := s.size + 1 }
  let s ← this
  onlyIf (s.needToSave rm) createSnapshot

/-- The `try` block of the snapshot. -/
def snapshotBody (rm : RulesManager) : Call E (HAKieSerializedSession F) Unit := do
  upgradeIfNeeded rm
  let session ← buildSession rm
  let container ← lift rm.getKieContainer
  let bytes ← lift (rm.serialize E container session)
  modifyThis fun s => { s with session := some bytes }

/-- The snapshot that `createSnapshot` hands to the executor. -/
def snapshotTask (rm : RulesManager) : Call E (HAKieSerializedSession F) Unit :=
  tryCatchFinally (snapshotBody rm) fun s => { s with saving := false, latch := s.latch - 1 }

/-- `waitForSnapshotToComplete`: a pending snapshot runs. -/
def waitForSnapshotToComplete (rm : RulesManager) : Call E (HAKieSerializedSession F) Unit := do
  let s ← this
  onlyIf s.saving (snapshotTask rm)

/-- `rebuild`. -/
def rebuild (rm : RulesManager) : Call E (HAKieSerializedSession F) (HAKieSession E) := do
  waitForSnapshotToComplete rm
  upgradeIfNeeded rm
  let session ← buildSession rm
  pure { session := some session }

end Replay

/-- The facts in the stored bytes, then the facts in the buffer. -/
def history (H : FactHistory E) (s : HAKieSerializedSession F) : List F :=
  H.stored s.session ++ s.buffer

/-- What replaying facts may do to the object: it takes facts from the front of the buffer and
writes the counter. -/
structure Drains (s s' : HAKieSerializedSession F) : Prop where
  /-- The buffer is what is left of it. -/
  buffer : s'.buffer <:+ s.buffer
  /-- Nothing else changes but the counter. -/
  rest : s' = { s with buffer := s'.buffer, size := s'.size }

variable {H : FactHistory E} {rm : RulesManager} {f : F} {e : Throwable}
  {fr fr' : Frame (Delivery E.Message) (HAKieSerializedSession F)} {session session' : KieSession E}

theorem Drains.rfl {s : HAKieSerializedSession F} : Drains s s := ⟨List.suffix_rfl, by cases s; rfl⟩

theorem Drains.trans {s s' s'' : HAKieSerializedSession F} (h : Drains s s') (h' : Drains s' s'') :
    Drains s s'' := by
  refine ⟨h'.buffer.trans h.buffer, ?_⟩
  rw [h'.rest, h.rest]

@[simp]
theorem createSnapshot_run :
    (createSnapshot : Call E (HAKieSerializedSession F) Unit) fr =
      .ok () ⟨{ fr.this with
        saving := true, latch := if fr.this.saving then fr.this.latch else 1 }, fr.out⟩ := by
  obtain ⟨⟨saving, latch, version, session, size, buffer⟩, out⟩ := fr
  cases saving <;> rfl

variable [Fact F]

/-- The loop that returns has emptied the buffer. -/
theorem replayLoop_this {facts : List F} (hb : fr.this.buffer = facts)
    (h : replayLoop session facts fr = .ok session' fr') :
    fr'.this = { fr.this with buffer := [] } := by
  induction facts generalizing session fr with
  | nil =>
    cases h
    rw [← hb]
  | cons fact facts ih =>
    simp only [replayLoop, bind_eq_ok, modifyThis_run, onLocal_eq_ok] at h
    obtain ⟨_, fr₁, h₁, s₂, fr₂, ⟨-, h₂⟩, s₃, fr₃, ⟨-, h₃⟩, h⟩ := h
    cases h₁
    rw [ih (by rw [h₃, h₂]) h, h₃, h₂]

/-- The loop that returns has put every fact into the session, in order. -/
theorem replayLoop_ok {facts : List F} (h : replayLoop session facts fr = .ok session' fr') :
    H.history session'.state = H.history session.state ++ facts := by
  induction facts generalizing session fr with
  | nil =>
    cases h
    simp
  | cons fact facts ih =>
    simp only [replayLoop, bind_eq_ok, modifyThis_run, onLocal_eq_ok] at h
    obtain ⟨_, fr₁, h₁, s₂, fr₂, ⟨hadv, h₂⟩, s₃, fr₃, ⟨hins, h₃⟩, h⟩ := h
    obtain ⟨⟨d, rfl⟩, -⟩ := KieSessionUtils.advanceClock_ok hadv
    obtain ⟨hnone, rfl, -⟩ := KieSession.insert_ok hins
    rw [ih h, H.insert _ _ hnone, H.advanceTime]
    simp

/-- The loop that throws has lost at least the fact at which it threw. -/
theorem replayLoop_error {facts : List F} (hb : fr.this.buffer = facts)
    (h : replayLoop session facts fr = .error e fr') :
    Drains fr.this fr'.this ∧ fr'.this.buffer.length < facts.length := by
  induction facts generalizing session fr with
  | nil => cases h
  | cons fact facts ih =>
    have hdrop : Drains fr.this { fr.this with buffer := facts } :=
      ⟨by rw [hb]; exact List.suffix_cons _ _, rfl⟩
    simp only [replayLoop, bind_eq_error, modifyThis_run, onLocal_eq_error, onLocal_eq_ok] at h
    rcases h with h | ⟨_, fr₁, h₁, h⟩
    · cases h
    cases h₁
    rcases h with ⟨-, h₂⟩ | ⟨s₂, fr₂, ⟨-, h₂⟩, h⟩
    · rw [h₂]
      exact ⟨hdrop, by simp⟩
    rcases h with ⟨-, h₃⟩ | ⟨s₃, fr₃, ⟨-, h₃⟩, h⟩
    · rw [h₃, h₂]
      exact ⟨hdrop, by simp⟩
    · obtain ⟨hd, hlt⟩ := ih (by rw [h₃, h₂]) h
      rw [h₃, h₂] at hd
      exact ⟨hdrop.trans hd, by simp only [List.length_cons]; omega⟩

/-- A replay that returns either had nothing to replay, or has been through its loop. -/
theorem replayFacts_cases (h : replayFacts rm session fr = .ok session' fr') :
    (fr.this.buffer = [] ∧ fr' = fr ∧ session' = rm.registerChannels session) ∨
      fr.this.buffer ≠ [] ∧ ∃ s s' : KieSession E, ∃ fr₁, replayLoop (rm.registerReplayChannels session)
          fr.this.buffer fr = .ok s fr₁ ∧
        KieSession.fireAllRules ⟨s, fr₁.out⟩ = .ok () ⟨s', fr'.out⟩ ∧
        fr'.this = { fr₁.this with size := 0 } ∧ session' = rm.registerChannels s' := by
  simp only [replayFacts, bind_eq_ok, this_run] at h
  obtain ⟨s, fr₁, h₁, s₂, fr₂, h, h₂⟩ := h
  cases h₁
  cases h₂
  cases hb : fr.this.buffer.isEmpty with
  | true =>
    rw [hb] at h
    cases h
    exact .inl ⟨List.isEmpty_iff.1 hb, rfl, rfl⟩
  | false =>
    simp only [hb, cond_false, replayBuffer, bind_eq_ok, this_run, modifyThis_run,
      onLocal_eq_ok] at h
    obtain ⟨s, fr₁, h₁, s₃, fr₃, hloop, _, fr₄, h₄, hfire, h₂⟩ := h
    cases h₁
    cases h₄
    exact .inr ⟨by simpa using hb, s₃, s₂, fr₃, hloop, hfire, h₂, rfl⟩

/-- A replay that returns has emptied the buffer. -/
theorem replayFacts_this (h : replayFacts rm session fr = .ok session' fr') :
    Drains fr.this fr'.this ∧ fr'.this.buffer = [] := by
  obtain ⟨hnil, rfl, -⟩ | ⟨-, s, s', fr₁, hloop, -, hthis, -⟩ := replayFacts_cases h
  · exact ⟨.rfl, hnil⟩
  · rw [hthis, replayLoop_this rfl hloop]
    exact ⟨⟨List.nil_suffix, rfl⟩, rfl⟩

/-- A replay that returns has put the whole buffer into the session, in order. -/
theorem replayFacts_ok (h : replayFacts rm session fr = .ok session' fr') :
    H.history session'.state = H.history session.state ++ fr.this.buffer := by
  obtain ⟨hnil, -, rfl⟩ | ⟨-, s, s', fr₁, hloop, hfire, -, rfl⟩ := replayFacts_cases h
  · rw [RulesManager.registerChannels_state, hnil, List.append_nil]
  · have hhist := replayLoop_ok (H := H) hloop
    rw [RulesManager.registerReplayChannels_state] at hhist
    obtain ⟨rfl, -⟩ := KieSession.fireAllRules_ok hfire
    rw [RulesManager.registerChannels_state, H.fireAllRules, hhist]

/-- A replay that throws had facts to replay, and has lost at least one of them. -/
theorem replayFacts_error (h : replayFacts rm session fr = .error e fr') :
    Drains fr.this fr'.this ∧ fr'.this.buffer.length < fr.this.buffer.length := by
  simp only [replayFacts, bind_eq_error, this_run] at h
  rcases h with h | ⟨s, fr₁, h₁, h⟩
  · cases h
  cases h₁
  rcases h with h | ⟨_, _, _, h⟩
  · cases hb : fr.this.buffer with
    | nil =>
      rw [hb] at h
      cases h
    | cons fact facts =>
      simp only [hb, List.isEmpty_cons, cond_false, replayBuffer, bind_eq_error, this_run,
        modifyThis_run, onLocal_eq_error] at h
      rcases h with h | ⟨s, fr₁, h₁, h⟩
      · cases h
      cases h₁
      rw [hb] at h
      rcases h with h | ⟨s₃, fr₃, hloop, h⟩
      · exact replayLoop_error hb h
      rcases h with h | ⟨_, fr₄, h₄, -, h⟩
      · cases h
      cases h₄
      have hthis := replayLoop_this hb hloop
      rw [h, hthis]
      exact ⟨⟨List.nil_suffix, rfl⟩, by simp⟩
  · cases h

omit [Fact F] in
/-- A container update that returns keeps the facts of the session. -/
theorem updateToVersion_ok {container container' : KieContainer} {target : ReleaseId}
    (h : container.updateToVersion target session = .ok (container', session')) :
    H.history session'.state = H.history session.state := by
  unfold KieContainer.updateToVersion at h
  split at h
  · cases h
    exact H.migrate _ _
  · cases h
    rfl
  · cases h

/-- An upgrade that returns has moved the whole buffer into the stored bytes. -/
theorem rebuildSessionAndUpgrade_ok (h : rebuildSessionAndUpgrade rm fr = .ok () fr') :
    fr'.this.history H = fr.this.history H ∧ fr'.this.buffer = [] ∧
      fr'.this.saving = fr.this.saving := by
  simp only [rebuildSessionAndUpgrade, bind_eq_ok, this_run, lift_eq_ok, modifyThis_run] at h
  obtain ⟨_, fr₁, h₁, container, fr₂, ⟨-, h₂⟩, s₁, fr₃, ⟨hread, h₃⟩, s₂, fr₄, hreplay, h⟩ := h
  obtain ⟨target, fr₅, ⟨-, h₅⟩, ⟨container', s₃⟩, fr₆, ⟨hup, h₆⟩, bytes, fr₇, ⟨hwrite, h₇⟩, h⟩ := h
  obtain ⟨_, fr₈, h₈, current, fr₉, ⟨-, h₉⟩, h⟩ := h
  cases h₁
  have hhist := replayFacts_ok (H := H) hreplay
  obtain ⟨hdrains, hnil⟩ := replayFacts_this hreplay
  have hinside := RulesManager.serialize_ok H hwrite
  rw [updateToVersion_ok hup, hhist, (RulesManager.deserializeOrCreate_ok H hread).1] at hinside
  cases h₈
  cases h
  rw [h₉, h₇, h₆, h₅, h₃, h₂] at *
  refine ⟨?_, hnil, ?_⟩
  · simp only [history, FactHistory.stored, hnil, hinside, List.append_nil]
  · rw [hdrains.rest]

/-- `upgradeIfNeeded` does nothing, or upgrades. -/
theorem upgradeIfNeeded_eq_ok (h : upgradeIfNeeded rm fr = .ok () fr') :
    (fr.this.isUpgradeNeeded rm = .ok false ∧ fr' = fr) ∨
      (fr.this.isUpgradeNeeded rm = .ok true ∧ rebuildSessionAndUpgrade rm fr = .ok () fr') := by
  simp only [upgradeIfNeeded, bind_eq_ok, this_run, lift_eq_ok] at h
  obtain ⟨_, fr₁, h₁, needed, fr₂, ⟨hneeded, h₂⟩, h⟩ := h
  cases h₁
  cases h₂
  cases needed with
  | false =>
    cases h
    exact .inl ⟨hneeded, rfl⟩
  | true => exact .inr ⟨hneeded, h⟩

/-- Moving to the current rules keeps the history. -/
theorem upgradeIfNeeded_ok (h : upgradeIfNeeded rm fr = .ok () fr') :
    fr'.this.history H = fr.this.history H ∧ fr'.this.saving = fr.this.saving := by
  rcases upgradeIfNeeded_eq_ok h with ⟨-, rfl⟩ | ⟨-, h⟩
  · exact ⟨rfl, rfl⟩
  · obtain ⟨hhist, -, hsaving⟩ := rebuildSessionAndUpgrade_ok (H := H) h
    exact ⟨hhist, hsaving⟩

/-- A session that is built holds the whole history, and the buffer is empty afterwards. -/
theorem buildSession_ok (h : buildSession rm fr = .ok session' fr') :
    H.history session'.state = fr.this.history H ∧ Drains fr.this fr'.this ∧
      fr'.this.buffer = [] := by
  simp only [buildSession, bind_eq_ok, this_run, lift_eq_ok] at h
  obtain ⟨_, fr₁, h₁, container, fr₂, ⟨-, h₂⟩, s₁, fr₃, ⟨hread, h₃⟩, h⟩ := h
  cases h₁
  cases h₂
  cases h₃
  have hhist := replayFacts_ok (H := H) h
  obtain ⟨hdrains, hnil⟩ := replayFacts_this h
  rw [(RulesManager.deserializeOrCreate_ok H hread).1] at hhist
  exact ⟨hhist, hdrains, hnil⟩

/-- An `add` that returns adds the fact at the end of the history. -/
theorem add_ok (h : add rm f fr = .ok () fr') :
    fr'.this.history H = fr.this.history H ++ [f] := by
  simp only [add, bind_eq_ok, modifyThis_run, this_run] at h
  obtain ⟨_, fr₁, hup, _, fr₂, h₂, _, fr₃, h₃, h⟩ := h
  cases h₂
  cases h₃
  rw [← (upgradeIfNeeded_ok (H := H) hup).1]
  generalize needToSave rm _ = save at h
  cases save with
  | false =>
    cases h
    simp [history]
  | true =>
    simp only [onlyIf_true, createSnapshot_run] at h
    cases h
    simp [history]

/-- The work of a snapshot that returns keeps the history and empties the buffer. -/
theorem snapshotBody_ok (h : snapshotBody rm fr = .ok () fr') :
    fr'.this.history H = fr.this.history H ∧ fr'.this.buffer = [] := by
  simp only [snapshotBody, bind_eq_ok, lift_eq_ok, modifyThis_run] at h
  obtain ⟨_, fr₁, hup, s, fr₂, hbuild, container, fr₃, ⟨-, h₃⟩, bytes, fr₄, ⟨hwrite, h₄⟩, h⟩ := h
  cases h₃
  cases h₄
  cases h
  obtain ⟨hhist, -, hnil⟩ := buildSession_ok (H := H) hbuild
  have hinside := RulesManager.serialize_ok H hwrite
  rw [hhist, (upgradeIfNeeded_ok (H := H) hup).1] at hinside
  refine ⟨?_, hnil⟩
  simp only [history, FactHistory.stored, hnil, hinside, List.append_nil]

/-- The snapshot returns whatever its work does, and no snapshot is pending afterwards. -/
theorem snapshotTask_of_ok (h : snapshotBody rm fr = .ok () fr') :
    snapshotTask rm fr =
      .ok () ⟨{ fr'.this with saving := false, latch := fr'.this.latch - 1 }, fr'.out⟩ := by
  simp only [snapshotTask, tryCatchFinally, h]

/-- Where no snapshot is pending there is nothing to wait for. -/
theorem waitForSnapshotToComplete_of_not_saving (hs : fr.this.saving = false) :
    waitForSnapshotToComplete rm fr = .ok () fr := by
  rw [waitForSnapshotToComplete, bind_of_ok this_run, hs]
  rfl

/-- Where no snapshot is pending, a rebuild that returns hands out the whole history. -/
theorem rebuild_ok {h : HAKieSession E} (hs : fr.this.saving = false)
    (hr : rebuild rm fr = .ok h fr') : h.history H = fr.this.history H := by
  rw [rebuild, bind_of_ok (waitForSnapshotToComplete_of_not_saving hs)] at hr
  simp only [bind_eq_ok, pure_run] at hr
  obtain ⟨_, fr₁, hup, s, fr₂, hbuild, h₃⟩ := hr
  cases h₃
  rw [HAKieSession.history_of_session rfl, (buildSession_ok (H := H) hbuild).1,
    (upgradeIfNeeded_ok (H := H) hup).1]

/-- A rebuild takes facts out of the session and stores them nowhere: there are some, and no upgrade
is due, which would store them. -/
def emptiedByRebuild (rm : RulesManager) (s : HAKieSerializedSession F) : Bool :=
  (s.isUpgradeNeeded rm).toOption == some false && !s.buffer.isEmpty

omit [Fact F] in
/-- A replay of an empty buffer leaves the history of the session it is taken from. -/
theorem Drains.history_of_nil {s s' : HAKieSerializedSession F} (h : Drains s s')
    (hnil : s.buffer = []) : s'.history H = s.history H := by
  have hnil' : s'.buffer = [] := List.suffix_nil.1 (hnil ▸ h.buffer)
  rw [h.rest, history, history, hnil', hnil]

/-- Where no snapshot is pending, a rebuild that does not empty the session leaves its history. -/
theorem rebuild_history {h : HAKieSession E} (hs : fr.this.saving = false)
    (he : fr.this.emptiedByRebuild rm = false) (hr : rebuild rm fr = .ok h fr') :
    fr'.this.history H = fr.this.history H := by
  rw [rebuild, bind_of_ok (waitForSnapshotToComplete_of_not_saving hs)] at hr
  simp only [bind_eq_ok, pure_run] at hr
  obtain ⟨_, fr₁, hup, s, fr₂, hbuild, h₃⟩ := hr
  cases h₃
  obtain ⟨-, hdrains, -⟩ := buildSession_ok (H := H) hbuild
  rcases upgradeIfNeeded_eq_ok hup with ⟨hneeded, rfl⟩ | ⟨-, hup⟩
  · have hempty : fr₁.this.buffer = [] := by
      simpa [emptiedByRebuild, hneeded, Except.toOption] using he
    exact hdrains.history_of_nil hempty
  · obtain ⟨hhist, hnil, -⟩ := rebuildSessionAndUpgrade_ok (H := H) hup
    rw [hdrains.history_of_nil hnil, hhist]

end HAKieSerializedSession

end Hacep
