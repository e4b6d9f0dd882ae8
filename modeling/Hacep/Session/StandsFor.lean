import Hacep.Session.Quiet
import Hacep.Session.Replay

/-!
# The session that a stored value stands for

Without a grid, a group of facts would have one session of the engine, which takes the facts one by
one and fires after each of them: `KieSession.alone`. What an owner stores stands for that session
after some facts (`Entry.StandsFor`): a live session is it, and a serialized one becomes it when its
buffer is replayed. Where the firing of a buffer absorbs the firings that the session alone made in
between (`KieEngine.Absorbing`), every call on a stored value keeps to this: a merge stands for one
fact more, a snapshot stands for the same facts, a rebuild hands the session out, and an insertion
delivers what the session alone delivers.
-/

namespace Hacep

open Java Batching

variable {F : Type} [Fact F]

/-! ## One session -/

/-- An open session takes a fact and fires: `HAKieSession.insert`, once the session is open. -/
def KieSession.process {E : KieEngine F} (fact : F) : Call E (KieSession E) Unit := do
  KieSessionUtils.advanceClock fact
  KieSession.insert fact
  KieSession.fireAllRules

/-- One session that is fed with facts. -/
def KieSession.alone (E : KieEngine F) : Lts (KieSession E) F where
  step s fact :=
    match KieSession.process fact ⟨s, []⟩ with
    | .ok _ fr => some fr.this
    | .error _ _ => none

variable {E : KieEngine F}

/-- What the session delivers with a fact. -/
def KieSession.delivered (s : KieSession E) (fact : F) : List (Delivery E.Message) :=
  (finalFrame (KieSession.process fact ⟨s, []⟩)).out

variable (E) in
/-- A new session of a release with the real channels, after some facts. -/
def KieSession.after (c : RulesConfiguration) (r : ReleaseId) (facts : List F) : KieSession E :=
  ⟨stepwise E.take E.fire (E.newKieSession r) facts, c.liveChannels⟩

variable {c : RulesConfiguration} {r : ReleaseId} {f : F} {facts : List F}

/-- A session that takes a fact is the session after that fact. -/
theorem KieSession.process_after {out : List (Delivery E.Message)}
    {fr : Frame (Delivery E.Message) (KieSession E)}
    (h : KieSession.process f ⟨.after E c r facts, out⟩ = .ok () fr) :
    fr.this = .after E c r (facts ++ [f]) := by
  simp only [KieSession.process, bind_eq_ok] at h
  obtain ⟨_, ⟨s₁, out₁⟩, hadvance, _, ⟨s₂, out₂⟩, hinsert, hfire⟩ := h
  obtain ⟨rfl, -⟩ := KieEngine.take_of_ok hadvance hinsert
  obtain ⟨s₃, out₃⟩ := fr
  obtain ⟨rfl, -⟩ := KieSession.fireAllRules_ok hfire
  have hstate := stepwise_concat E.take E.fire (E.newKieSession r) facts f
  simp only [KieSession.after, hstate]
  rfl

/-- It delivers to real channels. -/
theorem KieSession.process_real {fr : Frame (Delivery E.Message) (KieSession E)}
    (h : KieSession.process f ⟨.after E c r facts, []⟩ = .ok () fr) :
    fr.out.filter (fun d => d.channel.isReal) = fr.out := by
  simp only [KieSession.process, bind_eq_ok] at h
  obtain ⟨_, ⟨s₁, out₁⟩, hadvance, _, ⟨s₂, out₂⟩, hinsert, hfire⟩ := h
  obtain ⟨rfl, rfl⟩ := KieEngine.take_of_ok hadvance hinsert
  obtain ⟨-, hout⟩ := KieSession.fireAllRules_ok hfire
  rw [List.nil_append] at hout
  rw [hout]
  exact List.filter_eq_self.2 (KieSession.deliveries_of_live rfl _)

/-! ## Live sessions -/

namespace HAKieSession

/-- The session that an object holds, or opens with the first fact. -/
def current (c : RulesConfiguration) (r : ReleaseId) (h : HAKieSession E) : KieSession E :=
  h.session.getD (.after E c r [])

variable {rm : RulesManager} {fr fr' : Frame (Delivery E.Message) (HAKieSession E)}

/-- The session that an opening leaves is the current one. -/
theorem openSession_current (hrm : rm.Running r)
    (h : openSession rm fr = .ok () fr') :
    fr'.this.session = some (fr.this.current rm.rulesConfiguration r) ∧ fr'.out = fr.out := by
  obtain ⟨session, session', hopened, rfl, rfl⟩ := openSession_eq_ok.1 h
  refine ⟨congrArg some ?_, rfl⟩
  cases hs : fr.this.session with
  | some s =>
    rw [opened, hs] at hopened
    cases hopened
    simp [current, hs]
  | none =>
    simp only [opened, hs, hrm.getKieContainer, except_bind_eq_ok, RulesManager.newKieSession,
      hrm.checkStatus] at hopened
    obtain ⟨_, hcontainer, _, -, hsession⟩ := hopened
    cases hcontainer
    cases hsession
    have hlive := rm.eq_registerChannels_of_live
      (s := KieSession.after E rm.rulesConfiguration r []) rfl
    rw [Option.isNone_none, if_pos rfl, current, hs, Option.getD_none, hlive]
    rfl

/-- An insertion that returns has had the current session take the fact. -/
theorem insert_process (hrm : rm.Running r) (h : insert rm f fr = .ok () fr') :
    ∃ s, KieSession.process f ⟨fr.this.current rm.rulesConfiguration r, fr.out⟩ =
        .ok () ⟨s, fr'.out⟩ ∧ fr'.this = ⟨some f, some s⟩ := by
  simp only [insert, takeFact, bind_eq_ok, modifyThis_run] at h
  obtain ⟨_, fr₄, ⟨_, fr₁, hopen, _, fr₂, h₂, _, fr₃, hadvance, hinsert⟩, hfire⟩ := h
  cases h₂
  obtain ⟨hsession, hout⟩ := openSession_current hrm hopen
  obtain ⟨s₁, hadvance, h₃⟩ := (onSession_iff (by exact hsession)).1 hadvance
  obtain ⟨s₂, hinsert, h₄⟩ := (onSession_iff (by rw [h₃])).1 hinsert
  obtain ⟨s₃, hfire, h₅⟩ := (onSession_iff (by rw [h₄])).1 hfire
  refine ⟨s₃, ?_, by rw [h₅, h₄, h₃]⟩
  rw [← hout, KieSession.process, bind_of_ok hadvance, bind_of_ok hinsert, hfire]

end HAKieSession

/-! ## Serialized sessions -/

namespace HAKieSerializedSession

variable {rm : RulesManager} {session session' : KieSession E} {state : E.State}
  {fr fr' : Frame (Delivery E.Message) (HAKieSerializedSession F)}

/-- A replay into a session without channels leaves it with the real ones. -/
theorem replayFacts_channels (hnames : rm.rulesConfiguration.SameNames)
    (hnone : session.channels = fun _ => none)
    (h : replayFacts rm session fr = .ok session' fr') :
    session'.channels = rm.rulesConfiguration.liveChannels := by
  obtain ⟨-, rfl, rfl⟩ | ⟨-, s, s', fr₁, hloop, hfire, -, rfl⟩ := replayFacts_cases h
  · exact rm.registerChannels_of_none hnone
  · have hchannels := replayLoop_channels hloop
    rw [rm.registerReplayChannels_of_none hnone] at hchannels
    obtain ⟨rfl, -⟩ := KieSession.fireAllRules_ok hfire
    exact rm.registerChannels_of_silent hnames hchannels

/-- A rebuild hands out the session that it replays the buffer into, with the real channels. -/
theorem Stores.rebuild_session {h : HAKieSession E} (hs : Stores rm r fr.this state)
    (hnames : rm.rulesConfiguration.SameNames) (hsaving : fr.this.saving = false)
    (hr : rebuild rm fr = .ok h fr') :
    h.session = some ⟨batch E.take E.fire state fr.this.buffer, rm.rulesConfiguration.liveChannels⟩ ∧
      Stores rm r fr'.this state ∧ fr'.this.buffer = [] := by
  rw [rebuild, bind_of_ok (waitForSnapshotToComplete_of_not_saving hsaving),
    bind_of_ok hs.upgradeIfNeeded_run] at hr
  simp only [bind_eq_ok, pure_run] at hr
  obtain ⟨session, fr₁, hbuild, hr⟩ := hr
  cases hr
  obtain ⟨hstate, hstores, hnil⟩ := hs.buildSession_state hbuild
  refine ⟨?_, hstores, hnil⟩
  simp only [buildSession, bind_eq_ok, this_run, lift_eq_ok] at hbuild
  obtain ⟨_, _, h₁, container, _, ⟨-, h₂⟩, s, _, ⟨hread, h₃⟩, hreplay⟩ := hbuild
  have hchannels :=
    replayFacts_channels hnames (RulesManager.deserializeOrCreate_channels hread) hreplay
  rw [← hchannels, ← hstate]

end HAKieSerializedSession

/-! ## Stored values -/

/-- The firing of a batch absorbs the firings that the session alone makes in between. -/
def KieEngine.Absorbing (E : KieEngine F) (r : ReleaseId) : Prop :=
  ∀ facts, Absorbs E.take E.fire (stepwise E.take E.fire (E.newKieSession r) facts)

variable (E) in
/-- A serialized session becomes the session after some facts when its buffer is replayed. -/
def HAKieSerializedSession.StandsFor (rm : RulesManager) (r : ReleaseId)
    (s : HAKieSerializedSession F) (facts : List F) : Prop :=
  ∃ stored, Stores rm r s (stepwise E.take E.fire (E.newKieSession r) stored) ∧
    batch E.take E.fire (stepwise E.take E.fire (E.newKieSession r) stored) s.buffer =
      stepwise E.take E.fire (E.newKieSession r) facts

/-- What an owner stores is the session after some facts, or becomes it; no value stands for a new
session. -/
def Entry.StandsFor (rm : RulesManager) (r : ReleaseId) (e : Entry E) (facts : List F) : Prop :=
  match e with
  | none => facts = []
  | some (.live h) => h.current rm.rulesConfiguration r = .after E rm.rulesConfiguration r facts
  | some (.serialized s) => s.StandsFor E rm r facts

/-- A fact that is added to what is stored finds no other fact in the buffer. -/
def Entry.Unbuffered (e : Entry E) : Prop :=
  match e with
  | some (.serialized s) => s.buffer = []
  | _ => True

instance (e : Entry E) [DecidableEq F] : Decidable e.Unbuffered :=
  match e with
  | none => isTrue trivial
  | some (.live _) => isTrue trivial
  | some (.serialized s) => inferInstanceAs (Decidable (s.buffer = []))

section Calls

variable {rm : RulesManager} (hrm : rm.Running r)
include hrm

/-- A new serialized session stands for a new session. -/
theorem HAKieSerializedSession.new_standsFor {s : HAKieSerializedSession F}
    (h : HAKieSerializedSession.new rm = .ok s) : s.StandsFor E rm r [] ∧ s.buffer = [] := by
  simp only [HAKieSerializedSession.new, hrm.getReleaseId, except_bind_eq_ok] at h
  obtain ⟨_, hr, h⟩ := h
  cases hr
  cases h
  refine ⟨⟨[], ⟨hrm, rfl, ?_⟩, rfl⟩, rfl⟩
  simp only [RulesManager.deserializeOrCreate, RulesManager.newKieSession, hrm.checkStatus]
  rfl

/-- A live session that is wrapped stands for what it was. -/
theorem HAKieSession.wrapWithSerializedSession_standsFor (hround : E.RoundTrips r)
    {h : HAKieSession E} {s : HAKieSerializedSession F}
    (hh : h.current rm.rulesConfiguration r = .after E rm.rulesConfiguration r facts)
    (hw : h.wrapWithSerializedSession rm = .ok s) : s.StandsFor E rm r facts ∧ s.buffer = [] := by
  unfold HAKieSession.wrapWithSerializedSession at hw
  unfold HAKieSession.current at hh
  cases hs : h.session with
  | none =>
    rw [hs] at hw hh
    obtain ⟨⟨stored, hstores, hbatch⟩, hnil⟩ := HAKieSerializedSession.new_standsFor (E := E) hrm hw
    refine ⟨⟨stored, hstores, hbatch.trans ?_⟩, hnil⟩
    exact congrArg KieSession.state hh
  | some session =>
    rw [hs, Option.getD_some] at hh
    subst hh
    simp only [hs, except_bind_eq_ok, hrm.getReleaseId, hrm.getKieContainer,
      RulesManager.serialize, hrm.checkStatus] at hw
    obtain ⟨_, hr, _, hc, bytes, ⟨_, -, hbytes⟩, hw⟩ := hw
    cases hr
    cases hc
    cases hw
    refine ⟨⟨facts, ⟨hrm, rfl, ?_⟩, rfl⟩, rfl⟩
    -- The bytes read as the session that they were written from.
    have hread := hround _ _ hbytes
    simp only [HAKieSerializedSession.ofBytes, RulesManager.deserializeOrCreate, hrm.checkStatus,
      hread]
    rfl

omit hrm in
/-- A fact that is added is one fact more, where the firing of the buffer with it absorbs those in
between, or there are none. -/
theorem HAKieSerializedSession.StandsFor.add {s : HAKieSerializedSession F}
    {out : List (Delivery E.Message)} {fr' : Frame (Delivery E.Message) (HAKieSerializedSession F)}
    (hs : s.StandsFor E rm r facts) (hdigests : E.Absorbing r ∨ s.buffer = [])
    (h : HAKieSerializedSession.add rm f ⟨s, out⟩ = .ok () fr') :
    fr'.this.StandsFor E rm r (facts ++ [f]) := by
  obtain ⟨stored, hstores, hbatch⟩ := hs
  obtain ⟨hstores', hbuffer⟩ := Stores.add_stores (by exact hstores) h
  refine ⟨stored, hstores', ?_⟩
  rw [hbuffer, stepwise_concat, ← hbatch]
  rcases hdigests with habsorbing | hnil
  · rw [batch_eq_stepwise_of_absorbs (habsorbing stored),
      batch_eq_stepwise_of_absorbs (habsorbing stored), stepwise_concat]
  · simp only [hnil, List.nil_append, batch_nil]
    rfl

/-- What a merge leaves stands for the facts of the delta more. -/
theorem Delta.merge_standsFor (hround : E.RoundTrips r) {delta : Delta F}
    {fr fr' : Frame (Delivery E.Message) (Entry E)} (he : Entry.StandsFor rm r fr.this facts)
    (hdigests : E.Absorbing r ∨ Entry.Unbuffered fr.this)
    (h : delta.merge rm fr = .ok () fr') :
    Entry.StandsFor rm r fr'.this (facts ++ delta.facts) := by
  obtain ⟨d, out⟩ := fr
  rw [Delta.merge, bind_of_ok this_run] at h
  cases delta with
  | empty =>
    cases d with
    | some _ =>
      cases h
      simpa [Delta.facts] using he
    | none =>
      simp only [bind_eq_ok, lift_eq_ok, modifyThis_run] at h
      obtain ⟨s, _, ⟨hnew, rfl⟩, h⟩ := h
      cases h
      cases (show facts = [] from he)
      exact (HAKieSerializedSession.new_standsFor hrm hnew).1
  | fact f =>
    rcases d with _ | (h₀ | s)
    · simp only [bind_eq_ok, lift_eq_ok, modifyThis_run, onLocal_eq_ok] at h
      obtain ⟨s, _, ⟨hnew, rfl⟩, s', fr₂, ⟨hadd, -⟩, h⟩ := h
      cases h
      cases (show facts = [] from he)
      obtain ⟨hstands, hnil⟩ := HAKieSerializedSession.new_standsFor (E := E) hrm hnew
      exact hstands.add (.inr hnil) hadd
    · simp only [bind_eq_ok, lift_eq_ok, modifyThis_run, onLocal_eq_ok] at h
      obtain ⟨s, _, ⟨hwrap, rfl⟩, s', fr₂, ⟨hadd, -⟩, h⟩ := h
      cases h
      obtain ⟨hstands, hnil⟩ :=
        HAKieSession.wrapWithSerializedSession_standsFor hrm hround he hwrap
      exact hstands.add (.inr hnil) hadd
    · simp only [Entry.onSerialized] at h
      split at h
      · cases h
        exact HAKieSerializedSession.StandsFor.add he hdigests ‹_›
      · cases h

omit hrm in
/-- A snapshot that returns stands for the same facts. -/
theorem HAKieSerializedSession.StandsFor.snapshot (hround : E.RoundTrips r)
    {s : HAKieSerializedSession F} {out : List (Delivery E.Message)}
    {fr' : Frame (Delivery E.Message) (HAKieSerializedSession F)}
    (hs : s.StandsFor E rm r facts) (h : snapshotBody (E := E) rm ⟨s, out⟩ = .ok () fr') :
    fr'.this.saved.StandsFor E rm r facts := by
  obtain ⟨stored, hstores, hbatch⟩ := hs
  obtain ⟨hstores', hnil⟩ := Stores.snapshotBody_stores hround (by exact hstores) h
  refine ⟨facts, ?_, ?_⟩
  · simp only [hbatch] at hstores'
    exact ⟨hstores'.running, hstores'.version, hstores'.session⟩
  · show batch _ _ _ fr'.this.buffer = _
    rw [hnil, batch_nil]

omit hrm in
/-- A rebuild hands out the session, and leaves what stands for it where it takes no facts. -/
theorem HAKieSerializedSession.StandsFor.rebuild (hnames : rm.rulesConfiguration.SameNames)
    {s : HAKieSerializedSession F} {h : HAKieSession E} {out : List (Delivery E.Message)}
    {fr' : Frame (Delivery E.Message) (HAKieSerializedSession F)} (hs : s.StandsFor E rm r facts)
    (hsaving : s.saving = false)
    (hr : HAKieSerializedSession.rebuild rm ⟨s, out⟩ = .ok h fr') :
    h.current rm.rulesConfiguration r = .after E rm.rulesConfiguration r facts ∧
      (s.emptiedByRebuild rm = false → fr'.this.StandsFor E rm r facts) := by
  obtain ⟨stored, hstores, hbatch⟩ := hs
  obtain ⟨hsession, hstores', hnil⟩ :=
    Stores.rebuild_session (by exact hstores) hnames hsaving hr
  refine ⟨?_, fun hkept => ⟨stored, hstores', ?_⟩⟩
  · simp only [HAKieSession.current, hsession, Option.getD_some, hbatch]
    rfl
  · have hneeded : s.isUpgradeNeeded rm = .ok false := by
      unfold isUpgradeNeeded
      rw [hstores.running.getReleaseId]
      simp [bind, Except.bind, hstores.version]
    have hempty : s.buffer = [] := by
      simpa [emptiedByRebuild, hneeded, Except.toOption] using hkept
    rw [hnil, ← hbatch, hempty]

/-- An insertion into a live session delivers what the session alone delivers, and leaves it. -/
theorem HAKieSession.insert_standsFor {h : HAKieSession E} {out : List (Delivery E.Message)}
    {fr' : Frame (Delivery E.Message) (HAKieSession E)}
    (hh : h.current rm.rulesConfiguration r = .after E rm.rulesConfiguration r facts)
    (hi : HAKieSession.insert rm f ⟨h, out⟩ = .ok () fr') :
    fr'.this = ⟨some f, some (.after E rm.rulesConfiguration r (facts ++ [f]))⟩ ∧
      KieSession.process f ⟨.after E rm.rulesConfiguration r facts, out⟩ =
        .ok () ⟨.after E rm.rulesConfiguration r (facts ++ [f]), fr'.out⟩ := by
  obtain ⟨s, hprocess, hthis⟩ := insert_process hrm hi
  simp only [hh] at hprocess
  have hs : s = .after E rm.rulesConfiguration r (facts ++ [f]) := KieSession.process_after hprocess
  subst hs
  exact ⟨hthis, hprocess⟩

end Calls

end Hacep
