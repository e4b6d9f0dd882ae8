import Hacep.Session.HAKieSerializedSession

/-!
# What a call that throws leaves

A replay takes a fact out of the buffer before the session takes it, and what it has taken out is
stored only when an upgrade or a snapshot returns. `Spills` says when a call that replays takes
facts out of the buffer that nothing stores: there are facts, the replay begins, and no upgrade
stores them. `rebuild_history_iff` is the result: a rebuild, whether it returns or throws, leaves
the history of the session exactly when it does not spill or waits for a snapshot that returns.

`HAKieSession.Takes` is the matching condition for a live session: the insertion gets as far as the
engine, and the engine's insertion, whether it returns or throws, leaves other facts than before.
-/

namespace Hacep

open Java

variable {F : Type} [Fact F] {E : KieEngine F}

/-! ## Live sessions -/

/-- The clock advance returns exactly when the fact has an instant that a clock can be set to. -/
theorem KieSessionUtils.advanceClock_eq_ok {f : F}
    {fr fr' : Frame (Delivery E.Message) (KieSession E)} :
    KieSessionUtils.advanceClock f fr = .ok () fr' ↔
      ∃ instant gts, Fact.getInstant f = some instant ∧ instant.toEpochMilli = .ok gts ∧
        fr' = ⟨⟨E.advanceTime (gts - E.getCurrentTime fr.this.state) fr.this.state,
          fr.this.channels⟩, fr.out⟩ := by
  simp only [advanceClock, bind_eq_ok, lift_eq_ok, modifyThis_run]
  cases Fact.getInstant f with
  | none => simp
  | some instant =>
    constructor
    · rintro ⟨_, _, ⟨hi, rfl⟩, gts, _, ⟨hg, rfl⟩, h⟩
      cases hi
      cases h
      exact ⟨instant, gts, rfl, hg, rfl⟩
    · rintro ⟨_, gts, hi, hg, rfl⟩
      cases hi
      exact ⟨instant, _, ⟨rfl, rfl⟩, gts, _, ⟨hg, rfl⟩, rfl⟩

omit [Fact F] in
/-- The insertion returns exactly when the engine takes the fact. -/
theorem KieSession.insert_eq_ok {f : F} {fr fr' : Frame (Delivery E.Message) (KieSession E)} :
    KieSession.insert f fr = .ok () fr' ↔
      (E.insert f fr.this.state).2 = none ∧
        fr' = ⟨⟨(E.insert f fr.this.state).1, fr.this.channels⟩, fr.out⟩ := by
  unfold KieSession.insert
  rcases E.insert f fr.this.state with ⟨state, _ | e⟩ <;> simp [eq_comm]

namespace HAKieSession

/-- The session that an insertion works on, where it can be had. -/
def opened (rm : RulesManager) (h : HAKieSession E) : Except Throwable (KieSession E) :=
  match h.session with
  | some session => .ok session
  | none => do
    let container ← rm.getKieContainer
    rm.newKieSession E container

/-- The session can be had, the fact has an instant that a clock can be set to, and the engine's
insertion of it, whether it returns or throws, changes the facts of the session. -/
def Takes (H : FactHistory E) (rm : RulesManager) (f : F) (h : HAKieSession E) : Prop :=
  ∃ session instant gts, h.opened rm = .ok session ∧ Fact.getInstant f = some instant ∧
    instant.toEpochMilli = .ok gts ∧
    H.history (E.insert f
      (E.advanceTime (gts - E.getCurrentTime session.state) session.state)).1 ≠
        H.history session.state

variable {H : FactHistory E} {rm : RulesManager} {f : F} {e : Throwable}
  {fr fr' : Frame (Delivery E.Message) (HAKieSession E)}

omit [Fact F] in
/-- The session is opened exactly when it can be had. -/
theorem openSession_eq_ok :
    openSession rm fr = .ok () fr' ↔ ∃ session session', fr.this.opened rm = .ok session ∧
      session' = (if fr.this.session.isNone then rm.registerChannels session else session) ∧
      fr' = ⟨⟨fr.this.lastFact, some session'⟩, fr.out⟩ := by
  obtain ⟨⟨lastFact, session⟩, out⟩ := fr
  cases session with
  | some session =>
    simp only [openSession, opened, bind_of_ok this_run]
    constructor
    · intro h
      cases h
      exact ⟨session, session, rfl, rfl, rfl⟩
    · rintro ⟨_, _, h, rfl, rfl⟩
      cases h
      rfl
  | none =>
    simp only [openSession, opened, bind_of_ok this_run, Option.isNone_none, onlyIf_true,
      bind_eq_ok, lift_eq_ok, modifyThis_run, except_bind_eq_ok]
    constructor
    · rintro ⟨container, _, ⟨hc, rfl⟩, session, _, ⟨hs, rfl⟩, h⟩
      cases h
      exact ⟨session, _, ⟨container, hc, hs⟩, rfl, rfl⟩
    · rintro ⟨session, _, ⟨container, hc, hs⟩, rfl, rfl⟩
      exact ⟨container, _, ⟨hc, rfl⟩, session, _, ⟨hs, rfl⟩, rfl⟩

omit [Fact F] in
theorem onSession_iff {m : Call E (KieSession E) Unit} {session : KieSession E}
    (hs : fr.this.session = some session) :
    onSession m fr = .ok () fr' ↔ ∃ session', m ⟨session, fr.out⟩ = .ok () ⟨session', fr'.out⟩ ∧
      fr'.this = ⟨fr.this.lastFact, some session'⟩ := by
  constructor
  · intro h
    obtain ⟨s, s', hs', hm, h'⟩ := onSession_eq_ok h
    cases hs.symm.trans hs'
    exact ⟨s', hm, h'⟩
  · rintro ⟨session', hm, h'⟩
    obtain ⟨this', out'⟩ := fr'
    cases h'
    simp only [onSession, hs, hm]

/-- Where the engine's insertion is reached, the fact is taken exactly when it changes the facts of
the session. -/
theorem takes_iff {h : HAKieSession E} {session : KieSession E} {instant : Instant} {gts : Int64}
    (hsession : h.opened rm = .ok session) (hinstant : Fact.getInstant f = some instant)
    (hgts : instant.toEpochMilli = .ok gts) :
    h.Takes H rm f ↔ H.history (E.insert f
      (E.advanceTime (gts - E.getCurrentTime session.state) session.state)).1 ≠
        H.history session.state := by
  constructor
  · rintro ⟨_, _, _, hsession', hinstant', hgts', hne⟩
    cases hsession.symm.trans hsession'
    cases hinstant.symm.trans hinstant'
    cases hgts.symm.trans hgts'
    exact hne
  · exact fun hne => ⟨_, _, _, hsession, hinstant, hgts, hne⟩

omit [Fact F] in
/-- An opened session has the facts that the object had. -/
theorem opened_history {h : HAKieSession E} {session : KieSession E}
    (hsession : h.opened rm = .ok session) : H.history session.state = h.history H := by
  unfold opened at hsession
  cases hs : h.session with
  | some s =>
    rw [hs] at hsession
    cases hsession
    exact (history_of_session hs).symm
  | none =>
    simp only [hs, except_bind_eq_ok] at hsession
    obtain ⟨container, -, hnew⟩ := hsession
    rw [(RulesManager.newKieSession_ok H hnew).1, history, hs]

omit [Fact F] in
/-- The engine's insertion and the firing after it leave the facts that the insertion leaves. -/
theorem insertAndFire_history {s : KieSession E} (hs : fr.this.session = some s) :
    (finalFrame ((do
      onSession (KieSession.insert f)
      onSession KieSession.fireAllRules) fr)).this.history H = H.history (E.insert f s.state).1 := by
  cases hinsert : onSession (KieSession.insert f) fr with
  | error e fr₁ =>
    rw [bind_of_error hinsert]
    obtain ⟨s₁, hinsert, hthis⟩ := onSession_eq_error hs hinsert
    obtain ⟨-, rfl, -⟩ := KieSession.insert_error hinsert
    rw [finalFrame, hthis, history_of_session rfl]
  | ok u fr₁ =>
    rw [bind_of_ok hinsert]
    obtain ⟨s₁, hinsert, hthis⟩ := (onSession_iff hs).1 hinsert
    obtain ⟨-, rfl, -⟩ := KieSession.insert_ok hinsert
    have hs₁ : fr₁.this.session = some ⟨(E.insert f s.state).1, s.channels⟩ := by rw [hthis]
    cases hfire : onSession KieSession.fireAllRules fr₁ with
    | error e fr₂ =>
      obtain ⟨s₂, hfire, hthis⟩ := onSession_eq_error hs₁ hfire
      obtain ⟨rfl, -⟩ := KieSession.fireAllRules_error hfire
      rw [finalFrame, hthis, history_of_session rfl, H.fireAllRules]
    | ok u fr₂ =>
      obtain ⟨s₂, hfire, hthis⟩ := (onSession_iff hs₁).1 hfire
      obtain ⟨rfl, -⟩ := KieSession.fireAllRules_ok hfire
      rw [finalFrame, hthis, history_of_session rfl, H.fireAllRules]

/-- An insertion, whether it returns or throws, leaves the history as it was exactly when it has not
taken the fact. -/
theorem insert_history_iff (H : FactHistory E) (rm : RulesManager) (f : F)
    (fr : Frame (Delivery E.Message) (HAKieSession E)) :
    (finalFrame (insert rm f fr)).this.history H = fr.this.history H ↔ ¬fr.this.Takes H rm f := by
  rw [insert, takeFact]
  simp only [bind_assoc]
  cases hopen : openSession rm fr with
  | error e fr₁ =>
    -- There is no session to insert into.
    rw [bind_of_error hopen, openSession_error hopen]
    refine iff_of_true rfl ?_
    rintro ⟨session, _, _, hsession, -⟩
    cases hopen.symm.trans (openSession_eq_ok.2 ⟨session, _, hsession, rfl, rfl⟩)
  | ok u fr₁ =>
    rw [bind_of_ok hopen, bind_of_ok (modifyThis_run _)]
    obtain ⟨session, s₀, hsession, hopened, rfl⟩ := openSession_eq_ok.1 hopen
    have hstate : s₀.state = session.state := by
      rw [hopened]
      split <;> simp
    cases hadvance : onSession (KieSessionUtils.advanceClock f)
        ⟨⟨some f, some s₀⟩, fr.out⟩ with
    | error e fr₂ =>
      -- The fact has no instant that a clock can be set to.
      rw [bind_of_error hadvance]
      obtain ⟨s₁, hadvance, hthis⟩ := onSession_eq_error (s := s₀) rfl hadvance
      obtain ⟨rfl, -⟩ := KieSessionUtils.advanceClock_error hadvance
      refine iff_of_true ?_ ?_
      · rw [finalFrame, hthis, history_of_session rfl, hstate, opened_history hsession]
      · rintro ⟨_, instant, gts, -, hinstant, hgts, -⟩
        cases hadvance.symm.trans
          (KieSessionUtils.advanceClock_eq_ok.2 ⟨instant, gts, hinstant, hgts, rfl⟩)
    | ok u fr₂ =>
      rw [bind_of_ok hadvance]
      obtain ⟨s₁, hadvance, hthis⟩ := (onSession_iff rfl).1 hadvance
      obtain ⟨instant, gts, hinstant, hgts, h₁⟩ := KieSessionUtils.advanceClock_eq_ok.1 hadvance
      obtain ⟨rfl, -⟩ := Frame.mk.inj h₁
      rw [insertAndFire_history (H := H) (by rw [hthis]), takes_iff hsession hinstant hgts,
        not_not, hstate, opened_history hsession]

end HAKieSession

/-! ## Serialized sessions -/

namespace HAKieSerializedSession

/-- The session that a replay starts from, where it can be had: on the stored version when an
upgrade is due, else on the node's container. -/
def replayed (rm : RulesManager) (s : HAKieSerializedSession F) (due : Bool) :
    Except Throwable (KieSession E) := do
  let container ← if due then rm.newKieContainer E s.version else rm.getKieContainer
  rm.deserializeOrCreate E container s.session

/-- Moving to the current rules, then building the session: what a snapshot and a rebuild do. -/
def restore (rm : RulesManager) : Call E (HAKieSerializedSession F) (KieSession E) := do
  upgradeIfNeeded rm
  buildSession rm

/-- `restore` takes facts out of the buffer that nothing stores: there are facts, the replay begins,
and no upgrade stores them. -/
def Spills (rm : RulesManager) (fr : Frame (Delivery E.Message) (HAKieSerializedSession F)) : Prop :=
  fr.this.buffer ≠ [] ∧ ∃ due session, fr.this.isUpgradeNeeded rm = .ok due ∧
    fr.this.replayed (E := E) rm due = .ok session ∧
    ¬(due = true ∧ ∃ fr', rebuildSessionAndUpgrade rm fr = .ok () fr')

variable {H : FactHistory E} {rm : RulesManager} {f : F} {e : Throwable}
  {fr fr' : Frame (Delivery E.Message) (HAKieSerializedSession F)} {session : KieSession E}

omit [Fact F] in
theorem Drains.history_length {s s' : HAKieSerializedSession F} (h : Drains s s')
    (hlt : s'.buffer.length < s.buffer.length) :
    (s'.history H).length < (s.history H).length := by
  rw [h.rest, history, history, List.length_append, List.length_append]
  exact Nat.add_lt_add_left hlt _

/-- A build replays, if it can have the session to replay into. -/
theorem buildSession_run :
    buildSession rm fr = match fr.this.replayed (E := E) rm false with
      | .ok k => replayFacts rm k fr
      | .error e => .error e fr := by
  rw [buildSession, bind_of_ok this_run]
  simp only [replayed, Bool.false_eq_true, if_false]
  cases hc : rm.getKieContainer with
  | error e => rfl
  | ok container =>
    rw [bind_of_ok (lift_ok container)]
    show _ = match rm.deserializeOrCreate E container fr.this.session with
      | .ok k => replayFacts rm k fr
      | .error e => .error e fr
    cases hk : rm.deserializeOrCreate E container fr.this.session with
    | error e => rfl
    | ok k => exact bind_of_ok (lift_ok k)

/-- What a build leaves, whether it returns or throws: it has not begun to replay, or it has lost
the facts that were there. -/
theorem buildSession_final (h : finalFrame (buildSession (E := E) rm fr) = fr') :
    ((∀ k, fr.this.replayed (E := E) rm false ≠ .ok k) ∧ fr'.this = fr.this) ∨
      (∃ k, fr.this.replayed (E := E) rm false = .ok k) ∧ Drains fr.this fr'.this ∧
        (fr'.this.buffer = [] ∨ fr'.this.buffer.length < fr.this.buffer.length) := by
  rw [buildSession_run] at h
  cases hk : fr.this.replayed (E := E) rm false with
  | error e =>
    rw [hk] at h
    cases h
    exact .inl ⟨(by rintro k ⟨⟩), rfl⟩
  | ok k =>
    rw [hk] at h
    refine .inr ⟨⟨k, rfl⟩, ?_⟩
    cases hr : replayFacts rm k fr with
    | ok k' fr₁ =>
      simp only [hr] at h
      cases h
      obtain ⟨hdrains, hnil⟩ := replayFacts_this hr
      exact ⟨hdrains, .inl hnil⟩
    | error e fr₁ =>
      simp only [hr] at h
      cases h
      obtain ⟨hdrains, hlt⟩ := replayFacts_error hr
      exact ⟨hdrains, .inr hlt⟩

/-- An upgrade that throws has not begun to replay, or has lost the facts that were there. -/
theorem rebuildSessionAndUpgrade_error (h : rebuildSessionAndUpgrade rm fr = .error e fr') :
    ((∀ k, fr.this.replayed (E := E) rm true ≠ .ok k) ∧ fr'.this = fr.this) ∨
      (∃ k, fr.this.replayed (E := E) rm true = .ok k) ∧ Drains fr.this fr'.this ∧
        (fr'.this.buffer = [] ∨ fr'.this.buffer.length < fr.this.buffer.length) := by
  rw [rebuildSessionAndUpgrade, bind_of_ok this_run] at h
  simp only [replayed, if_true]
  cases hc : rm.newKieContainer E fr.this.version with
  | error e' =>
    rw [hc] at h
    cases h
    exact .inl ⟨(by rintro k ⟨⟩), rfl⟩
  | ok container =>
    rw [hc, bind_of_ok (lift_ok container)] at h
    cases hk : rm.deserializeOrCreate E container fr.this.session with
    | error e' =>
      -- The bytes cannot be read by the old rules: there is no session to replay into.
      rw [hk] at h
      cases h
      refine .inl ⟨fun k h => ?_, rfl⟩
      rw [except_bind_eq_ok] at h
      obtain ⟨_, h, h'⟩ := h
      cases h
      cases hk.symm.trans h'
    | ok k =>
      rw [hk, bind_of_ok (lift_ok k)] at h
      refine .inr ⟨⟨k, hk⟩, ?_⟩
      rw [bind_eq_error] at h
      rcases h with h | ⟨k', fr₁, hreplay, h⟩
      · obtain ⟨hdrains, hlt⟩ := replayFacts_error h
        exact ⟨hdrains, .inr hlt⟩
      · -- The replay has returned, so the exception comes before the bytes are stored.
        obtain ⟨hdrains, hnil⟩ := replayFacts_this hreplay
        have hthis : fr'.this = fr₁.this := by
          simp only [bind_eq_error, lift_eq_error, lift_eq_ok, modifyThis_run] at h
          rcases h with h | ⟨target, _, ⟨htarget, rfl⟩, h⟩
          · rw [h.2]
          rcases h with h | ⟨_, _, ⟨-, rfl⟩, h⟩
          · rw [h.2]
          rcases h with h | ⟨bytes, _, ⟨-, rfl⟩, h⟩
          · rw [h.2]
          rcases h with h | ⟨_, _, -, h | ⟨_, _, -, h⟩⟩
          · cases h
          · cases htarget.symm.trans h.1
          · cases h
        rw [hthis]
        exact ⟨hdrains, .inl hnil⟩

/-- What `restore` leaves: where it does not spill, the history, with an empty buffer or without
having begun; where it spills, less than the history. -/
structure Restored (H : FactHistory E) (rm : RulesManager)
    (fr : Frame (Delivery E.Message) (HAKieSerializedSession F)) (s : HAKieSerializedSession F) :
    Prop where
  /-- The history stays. -/
  history : ¬Spills rm fr → s.history H = fr.this.history H
  /-- There is nothing left to spill. -/
  idle : ¬Spills rm fr → s.buffer = [] ∨ s = fr.this ∧
    ∀ due k, fr.this.isUpgradeNeeded rm = .ok due → fr.this.replayed (E := E) rm due ≠ .ok k
  /-- Facts are lost. -/
  lost : Spills rm fr → (s.history H).length < (fr.this.history H).length

/-- A call that has not begun to replay, or has lost the facts that were there, and has stored
none. -/
theorem restored_of_drained {due : Bool} (hdue : fr.this.isUpgradeNeeded rm = .ok due)
    (hno : ¬(due = true ∧ ∃ fr', rebuildSessionAndUpgrade rm fr = .ok () fr'))
    (h : ((∀ k, fr.this.replayed (E := E) rm due ≠ .ok k) ∧ fr'.this = fr.this) ∨
      (∃ k, fr.this.replayed (E := E) rm due = .ok k) ∧ Drains fr.this fr'.this ∧
        (fr'.this.buffer = [] ∨ fr'.this.buffer.length < fr.this.buffer.length)) :
    Restored H rm fr fr'.this := by
  rcases h with ⟨hbegin, hthis⟩ | ⟨⟨k, hk⟩, hdrains, hlost⟩
  · -- A replay that has not begun spills nothing.
    refine ⟨fun _ => by rw [hthis], fun _ => .inr ⟨hthis, ?_⟩, ?_⟩
    · intro due' k h'
      cases hdue.symm.trans h'
      exact hbegin k
    · rintro ⟨-, due', k, h', hk, -⟩
      cases hdue.symm.trans h'
      exact absurd hk (hbegin k)
  · by_cases hnil : fr.this.buffer = []
    · have hnil' : fr'.this.buffer = [] := List.suffix_nil.1 (hnil ▸ hdrains.buffer)
      exact ⟨fun _ => hdrains.history_of_nil hnil, fun _ => .inl hnil', fun h => absurd hnil h.1⟩
    · have hspills : Spills rm fr := ⟨hnil, due, k, hdue, hk, hno⟩
      refine ⟨(absurd hspills ·), (absurd hspills ·), fun _ => hdrains.history_length ?_⟩
      rcases hlost with hlost | hlost
      · rw [hlost]
        exact List.length_pos_iff.2 hnil
      · exact hlost

/-- The upgrade throws. -/
theorem restored_of_error (hup : upgradeIfNeeded rm fr = .error e fr') :
    Restored H rm fr fr'.this := by
  rw [upgradeIfNeeded, bind_of_ok this_run] at hup
  cases hdue : fr.this.isUpgradeNeeded rm with
  | error e' =>
    -- The rules of the node are not started: nothing has been touched.
    rw [hdue] at hup
    cases hup
    refine ⟨fun _ => rfl, fun _ => .inr ⟨rfl, fun due k h' => ?_⟩, ?_⟩
    · cases hdue.symm.trans h'
    · rintro ⟨-, due, k, h', -⟩
      cases hdue.symm.trans h'
  | ok due =>
    rw [hdue, bind_of_ok (lift_ok due)] at hup
    cases due with
    | false => cases hup
    | true =>
      refine restored_of_drained hdue ?_ (rebuildSessionAndUpgrade_error hup)
      rintro ⟨-, fr₂, h₂⟩
      cases (show _ = _ from hup).symm.trans h₂

/-- The upgrade returns, or there is none, and the session is built. -/
theorem restored_of_build {fr₁ : Frame (Delivery E.Message) (HAKieSerializedSession F)}
    (hup : upgradeIfNeeded rm fr = .ok () fr₁)
    (h : finalFrame (buildSession (E := E) rm fr₁) = fr') : Restored H rm fr fr'.this := by
  rcases upgradeIfNeeded_eq_ok hup with ⟨hdue, rfl⟩ | ⟨hdue, hup⟩
  · exact restored_of_drained hdue (by simp) (buildSession_final h)
  · -- The upgrade has stored the facts, and the build finds an empty buffer.
    obtain ⟨hhist, hnil, -⟩ := rebuildSessionAndUpgrade_ok (H := H) hup
    have hspills : ¬Spills rm fr := by
      rintro ⟨-, due, k, h', -, hno⟩
      cases hdue.symm.trans h'
      exact hno ⟨rfl, fr₁, hup⟩
    have hbuild : Drains fr₁.this fr'.this := by
      rcases buildSession_final h with ⟨-, hthis⟩ | ⟨-, hdrains, -⟩
      · rw [hthis]
        exact .rfl
      · exact hdrains
    refine ⟨fun _ => ?_, fun _ => .inl ?_, (absurd · hspills)⟩
    · rw [hbuild.history_of_nil hnil, hhist]
    · exact List.suffix_nil.1 (hnil ▸ hbuild.buffer)

/-- What `restore` leaves, whether it returns or throws. -/
theorem restore_final (H : FactHistory E) (rm : RulesManager)
    (fr : Frame (Delivery E.Message) (HAKieSerializedSession F)) :
    Restored H rm fr (finalFrame (restore (E := E) rm fr)).this := by
  rw [restore]
  cases hup : upgradeIfNeeded (E := E) rm fr with
  | error e fr₁ =>
    rw [bind_of_error hup]
    exact restored_of_error hup
  | ok a fr₁ =>
    rw [bind_of_ok hup]
    exact restored_of_build hup rfl

/-- The work of a snapshot that throws leaves what `restore` leaves. -/
theorem snapshotBody_error (h : snapshotBody rm fr = .error e fr') :
    fr'.this = (finalFrame (restore (E := E) rm fr)).this := by
  rw [snapshotBody, bind_eq_error] at h
  rcases h with h | ⟨_, fr₁, hup, h⟩
  · rw [restore, bind_of_error h]
    rfl
  rw [restore, bind_of_ok hup]
  rw [bind_eq_error] at h
  rcases h with h | ⟨session, fr₂, hbuild, h⟩
  · rw [h]
    rfl
  rw [hbuild]
  -- The exception comes from the container or from `serialize`, before the bytes are stored.
  simp only [bind_eq_error, lift_eq_error, lift_eq_ok, modifyThis_run] at h
  rcases h with h | ⟨container, _, ⟨-, rfl⟩, h | ⟨bytes, _, ⟨-, rfl⟩, h⟩⟩
  · rw [h.2]
    rfl
  · rw [h.2]
    rfl
  · cases h

/-- A rebuild without a pending snapshot leaves what `restore` leaves. -/
theorem rebuild_final (hs : fr.this.saving = false) :
    finalFrame (rebuild (E := E) rm fr) = finalFrame (restore (E := E) rm fr) := by
  rw [rebuild, bind_of_ok (waitForSnapshotToComplete_of_not_saving hs), restore]
  cases hup : upgradeIfNeeded (E := E) rm fr with
  | error e fr₁ =>
    rw [bind_of_error hup, bind_of_error hup]
    rfl
  | ok a fr₁ =>
    rw [bind_of_ok hup, bind_of_ok hup]
    cases hbuild : buildSession (E := E) rm fr₁ with
    | error e fr₂ =>
      rw [bind_of_error hbuild]
      rfl
    | ok k fr₂ =>
      rw [bind_of_ok hbuild]
      rfl

/-- A rebuild with a pending snapshot is a rebuild after it. -/
theorem rebuild_of_saving (hs : fr.this.saving = true)
    (h : snapshotTask (E := E) rm fr = .ok () fr') (hs' : fr'.this.saving = false) :
    rebuild (E := E) rm fr = rebuild rm fr' := by
  have hwait : waitForSnapshotToComplete (E := E) rm fr = .ok () fr' := by
    rw [waitForSnapshotToComplete, bind_of_ok this_run, hs]
    exact h
  unfold rebuild
  rw [bind_of_ok hwait, bind_of_ok (waitForSnapshotToComplete_of_not_saving hs')]

/-- The session when its snapshot has ended. -/
def saved (s : HAKieSerializedSession F) : HAKieSerializedSession F :=
  { s with saving := false, latch := s.latch - 1 }

/-- A rebuild does not spill, or waits for a snapshot that returns. -/
def RebuildKeeps (rm : RulesManager) (fr : Frame (Delivery E.Message) (HAKieSerializedSession F)) :
    Prop :=
  ¬Spills rm fr ∨ fr.this.saving = true ∧ ∃ fr₁, snapshotBody rm fr = .ok () fr₁

/-- A rebuild, whether it returns or throws, leaves the history of the session exactly when it does
not spill, or waits for a snapshot that returns. -/
theorem rebuild_history_iff (H : FactHistory E) (rm : RulesManager)
    (fr : Frame (Delivery E.Message) (HAKieSerializedSession F)) :
    (finalFrame (rebuild (E := E) rm fr)).this.history H = fr.this.history H ↔
      RebuildKeeps rm fr := by
  unfold RebuildKeeps
  have hlength : ∀ {l l' : List F}, l.length < l'.length → l ≠ l' := by
    rintro l l' hlt rfl
    exact Nat.lt_irrefl _ hlt
  have hrestore := restore_final H rm fr
  cases hs : fr.this.saving with
  | false =>
    rw [rebuild_final hs]
    simp only [Bool.false_eq_true, false_and, or_false]
    exact ⟨fun heq hspills => hlength (hrestore.lost hspills) heq, hrestore.history⟩
  | true =>
    simp only [true_and]
    cases hbody : snapshotBody (E := E) rm fr with
    | ok a fr₁ =>
      -- The snapshot has stored the facts, and the rebuild finds an empty buffer.
      obtain ⟨hhist, hnil⟩ := snapshotBody_ok (H := H) hbody
      rw [rebuild_of_saving hs (snapshotTask_of_ok hbody) rfl, rebuild_final rfl]
      have hfinal := (restore_final H rm ⟨fr₁.this.saved, fr₁.out⟩).history
        fun hspills => hspills.1 hnil
      exact iff_of_true (hfinal.trans hhist) (.inr ⟨fr₁, rfl⟩)
    | error e fr₁ =>
      -- What the snapshot has lost is lost, and the rebuild can only lose more.
      have htask : snapshotTask (E := E) rm fr = .ok () ⟨fr₁.this.saved, fr₁.out⟩ := by
        simp only [snapshotTask, tryCatchFinally, hbody, saved]
      rw [rebuild_of_saving hs htask rfl, rebuild_final rfl]
      rw [← snapshotBody_error hbody] at hrestore
      have hfinal := restore_final H rm ⟨fr₁.this.saved, fr₁.out⟩
      simp only [reduceCtorEq, exists_false, or_false]
      constructor
      · intro heq hspills
        have hlost := hrestore.lost hspills
        by_cases hspills' : Spills rm ⟨fr₁.this.saved, fr₁.out⟩
        · exact hlength (Nat.lt_trans (hfinal.lost hspills') hlost) heq
        · exact hlength hlost ((hfinal.history hspills').symm.trans heq)
      · intro hspills
        have hspills' : ¬Spills rm ⟨fr₁.this.saved, fr₁.out⟩ := by
          rintro ⟨hne, due, k, hdue, hk, -⟩
          rcases hrestore.idle hspills with hnil | ⟨hthis, hbegin⟩
          · exact hne hnil
          · rw [hthis] at hdue hk
            exact hbegin due k hdue hk
        exact (hfinal.history hspills').trans (hrestore.history hspills)

/-- A snapshot of the session is pending and fails, and with the fact behind it, what the snapshot
leaves is what was there: it has lost one fact that is equal to this one. -/
def LosesToSnapshot (H : FactHistory E) (rm : RulesManager) (f : F)
    (fr : Frame (Delivery E.Message) (HAKieSerializedSession F)) : Prop :=
  fr.this.saving = true ∧ ∃ e fr₁, snapshotBody rm fr = .error e fr₁ ∧
    fr₁.this.history H ++ [f] = fr.this.history H

/-- A rebuilt session with a further fact has the history that was stored only where a snapshot has
lost that fact. -/
theorem rebuilt_append_iff {h : HAKieSession E} (hr : rebuild rm fr = .ok h fr') :
    h.history H ++ [f] = fr.this.history H ↔ LosesToSnapshot H rm f fr := by
  have hlonger : ∀ l : List F, l ++ [f] ≠ l := fun l heq => by
    have := congrArg List.length heq
    simp at this
  cases hs : fr.this.saving with
  | false =>
    rw [rebuild_ok hs hr]
    refine iff_of_false (hlonger _) fun hlost => ?_
    cases hs.symm.trans hlost.1
  | true =>
    cases hbody : snapshotBody (E := E) rm fr with
    | ok u fr₁ =>
      rw [rebuild_of_saving hs (snapshotTask_of_ok hbody) rfl] at hr
      have hhistory : h.history H = fr.this.history H :=
        (rebuild_ok rfl hr).trans (snapshotBody_ok hbody).1
      rw [hhistory]
      refine iff_of_false (hlonger _) ?_
      rintro ⟨-, e, fr₂, herror, -⟩
      cases hbody.symm.trans herror
    | error e fr₁ =>
      have htask : snapshotTask (E := E) rm fr = .ok () ⟨fr₁.this.saved, fr₁.out⟩ := by
        simp only [snapshotTask, tryCatchFinally, hbody, saved]
      rw [rebuild_of_saving hs htask rfl] at hr
      have hhistory := rebuild_ok (H := H) rfl hr
      rw [hhistory]
      constructor
      · exact fun heq => ⟨hs, e, fr₁, hbody, heq⟩
      · rintro ⟨-, e', fr₂, herror, heq⟩
        cases hbody.symm.trans herror
        exact heq

/-- An `add` returns exactly when the upgrade before it does. -/
theorem add_of_upgraded {fr₁ : Frame (Delivery E.Message) (HAKieSerializedSession F)}
    (hup : upgradeIfNeeded rm fr = .ok () fr₁) : ∃ fr', add rm f fr = .ok () fr' := by
  rw [add, bind_of_ok hup, bind_of_ok (modifyThis_run _), bind_of_ok this_run]
  generalize needToSave rm _ = save
  cases save with
  | false => exact ⟨_, rfl⟩
  | true => exact ⟨_, createSnapshot_run⟩

/-- An `add`, whether it returns or throws, leaves the history of the session exactly when the
upgrade before it throws and does not spill. -/
theorem add_history_iff (H : FactHistory E) (rm : RulesManager) (f : F)
    (fr : Frame (Delivery E.Message) (HAKieSerializedSession F)) :
    (finalFrame (add (E := E) rm f fr)).this.history H = fr.this.history H ↔
      (∀ fr₁, upgradeIfNeeded (E := E) rm fr ≠ .ok () fr₁) ∧ ¬Spills rm fr := by
  cases hup : upgradeIfNeeded (E := E) rm fr with
  | ok u fr₁ =>
    -- The fact is in the buffer.
    obtain ⟨fr', hadd⟩ := add_of_upgraded (f := f) hup
    rw [hadd, finalFrame, add_ok hadd]
    refine iff_of_false (fun heq => ?_) fun h => h.1 fr₁ rfl
    have := congrArg List.length heq
    simp at this
  | error e fr₁ =>
    rw [add, bind_of_error hup]
    have hrestored : Restored H rm fr fr₁.this := restored_of_error hup
    constructor
    · refine fun heq => ⟨by simp, fun hspills => ?_⟩
      exact absurd (congrArg List.length heq) (Nat.ne_of_lt (hrestored.lost hspills))
    · exact fun h => hrestored.history h.2

end HAKieSerializedSession

end Hacep
