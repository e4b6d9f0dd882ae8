import Hacep.Lib.Batching
import Hacep.Recorder
import Hacep.Session.Failure
import Hacep.Session.Replica

/-!
# Replay and the primary owner

The primary owner fires the rules after every fact. A replica collects facts and fires once for the
facts that a snapshot or a rebuild replays together. Both are the machine of `Batching` at the
engine's own functions: `HAKieSession.insertAll_state` says that the primary owner's session is
`Batching.stepwise`, and `Replica.rebuild_state` that the session which `rebuild` hands out is
`Batching.batches`, over the batches that the snapshots of the run have cut the facts into.

`rebuild_reproduces` compares the two. The clocks agree whatever the batches are. The sessions agree
when every batch has at most one fact, or when a firing at the end of a batch absorbs the earlier
ones. Without either they need not (`rebuild_differs`): a rule that looks at what is in the session
sees two facts together where on the primary owner it saw the first of them alone.
-/

namespace Hacep

open Java

variable {F : Type}

/-! ## The engine -/

/-- What a session becomes when its rules fire. -/
def KieEngine.fire (E : KieEngine F) (s : E.State) : E.State := (E.fireAllRules s).state

/-- What is marshalled on a release reads back on it. -/
def KieEngine.RoundTrips (E : KieEngine F) (r : ReleaseId) : Prop :=
  ∀ s bytes, E.marshall r s = .ok bytes → E.unmarshall r bytes = .ok s

/-- The session's clock is a pseudo clock: it is moved by `advanceTime` and by nothing else. -/
structure KieEngine.PseudoClock (E : KieEngine F) : Prop where
  /-- `advanceTime` adds to it. -/
  advanceTime : ∀ d s, E.getCurrentTime (E.advanceTime d s) = E.getCurrentTime s + d
  /-- An insertion leaves it. -/
  insert : ∀ f s, E.getCurrentTime (E.insert f s).1 = E.getCurrentTime s
  /-- A firing leaves it. -/
  fireAllRules : ∀ s, E.getCurrentTime (E.fireAllRules s).state = E.getCurrentTime s

variable [Fact F]

/-- What a session becomes with a fact: the clock set to its instant, and the fact inserted. -/
def KieEngine.take (E : KieEngine F) (f : F) (s : E.State) : E.State :=
  match (Fact.getInstant f).map Instant.toEpochMilli with
  | some (.ok gts) => (E.insert f (E.advanceTime (gts - E.getCurrentTime s) s)).1
  | _ => s

/-- The clock that a fact sets, from the clock before. -/
def clockOf (f : F) (clock : Int64) : Int64 :=
  match (Fact.getInstant f).map Instant.toEpochMilli with
  | some (.ok gts) => gts
  | _ => clock

variable {E : KieEngine F}

/-- The clock after a fact is the fact's, whatever the clock was. -/
theorem KieEngine.PseudoClock.take (hclock : E.PseudoClock) (f : F) (s : E.State) :
    E.getCurrentTime (E.take f s) = clockOf f (E.getCurrentTime s) := by
  unfold KieEngine.take clockOf
  split
  · rw [hclock.insert, hclock.advanceTime, Int64.add_comm, Int64.sub_add_cancel]
  · rfl

/-- A clock advance and an insertion that both return are `take`. -/
theorem KieEngine.take_of_ok {f : F} {s s₁ s₂ : KieSession E}
    {out out₁ out₂ : List (Delivery E.Message)}
    (hadvance : KieSessionUtils.advanceClock f ⟨s, out⟩ = .ok () ⟨s₁, out₁⟩)
    (hinsert : KieSession.insert f ⟨s₁, out₁⟩ = .ok () ⟨s₂, out₂⟩) :
    s₂ = ⟨E.take f s.state, s.channels⟩ ∧ out₂ = out := by
  obtain ⟨instant, gts, hinstant, hgts, hs₁⟩ := KieSessionUtils.advanceClock_eq_ok.1 hadvance
  have hs₂ := (KieSession.insert_eq_ok.1 hinsert).2
  simp only [Frame.mk.injEq] at hs₁ hs₂
  have htake : E.take f s.state =
      (E.insert f (E.advanceTime (gts - E.getCurrentTime s.state) s.state)).1 := by
    simp only [KieEngine.take, hinstant, Option.map_some, hgts]
  rw [hs₂.1, hs₂.2, hs₁.1, hs₁.2, htake]
  exact ⟨rfl, rfl⟩

open Batching

/-! ## The primary owner -/

namespace HAKieSession

variable {rm : RulesManager} {f : F} {fr fr' : Frame (Delivery E.Message) (HAKieSession E)}

/-- An insertion into an open session takes the fact and fires. -/
theorem insert_state {k : KieSession E} (hk : fr.this.session = some k)
    (h : insert rm f fr = .ok () fr') :
    ∃ k', fr'.this.session = some k' ∧ k'.state = E.fire (E.take f k.state) := by
  simp only [insert, takeFact, bind_eq_ok, modifyThis_run] at h
  obtain ⟨_, fr₄, ⟨_, fr₁, hopen, _, fr₂, h₂, _, fr₃, hadvance, hinsert⟩, hfire⟩ := h
  cases h₂
  -- The session is open, so it is the one that is used.
  obtain ⟨session, session', hsession, hopened, rfl⟩ := openSession_eq_ok.1 hopen
  have hsame : session' = k := by
    rw [hk, Option.isNone_some, if_neg Bool.false_ne_true] at hopened
    rw [opened, hk] at hsession
    cases hsession
    exact hopened
  subst hsame
  obtain ⟨s₁, hadvance, h₃⟩ := (onSession_iff rfl).1 hadvance
  obtain ⟨s₂, hinsert, h₄⟩ := (onSession_iff (by rw [h₃])).1 hinsert
  obtain ⟨s₃, hfire, h₅⟩ := (onSession_iff (by rw [h₄])).1 hfire
  obtain ⟨rfl, -⟩ := KieEngine.take_of_ok hadvance hinsert
  obtain ⟨rfl, -⟩ := KieSession.fireAllRules_ok hfire
  exact ⟨_, by rw [h₅], rfl⟩

/-- The insertions of the primary owner, one after the other. -/
def insertAll (rm : RulesManager) : List F → Call E (HAKieSession E) Unit
  | [] => pure ()
  | f :: facts => do
    insert rm f
    insertAll rm facts

/-- The primary owner's session has taken the facts one by one and fired after each of them. -/
theorem insertAll_state {facts : List F} {k : KieSession E} (hk : fr.this.session = some k)
    (h : insertAll rm facts fr = .ok () fr') :
    ∃ k', fr'.this.session = some k' ∧ k'.state = stepwise E.take E.fire k.state facts := by
  induction facts generalizing fr k with
  | nil =>
    cases h
    exact ⟨k, hk, rfl⟩
  | cons f facts ih =>
    simp only [insertAll, bind_eq_ok] at h
    obtain ⟨_, fr₁, hinsert, hrest⟩ := h
    obtain ⟨k₁, hk₁, hstate⟩ := insert_state hk hinsert
    obtain ⟨k', hk', hstate'⟩ := ih hk₁ hrest
    refine ⟨k', hk', ?_⟩
    rw [hstate', hstate]
    rfl

end HAKieSession

/-! ## The replica -/

namespace HAKieSerializedSession

variable {rm : RulesManager} {r : ReleaseId} {state : E.State} {session session' : KieSession E}
  {f : F} {fr fr' : Frame (Delivery E.Message) (HAKieSerializedSession F)}

/-- The loop that returns has taken the facts one by one. -/
theorem replayLoop_state {facts : List F} (h : replayLoop session facts fr = .ok session' fr') :
    session'.state = collect E.take session.state facts := by
  induction facts generalizing session fr with
  | nil =>
    cases h
    rfl
  | cons fact facts ih =>
    simp only [replayLoop, bind_eq_ok, modifyThis_run, onLocal_eq_ok] at h
    obtain ⟨_, fr₁, h₁, s₂, fr₂, ⟨hadvance, h₂⟩, s₃, fr₃, ⟨hinsert, h₃⟩, hrest⟩ := h
    cases h₁
    obtain ⟨rfl, -⟩ := KieEngine.take_of_ok hadvance hinsert
    rw [ih hrest]
    rfl

/-- A replay that returns has taken the buffer as one batch. -/
theorem replayFacts_state (h : replayFacts rm session fr = .ok session' fr') :
    session'.state = batch E.take E.fire session.state fr.this.buffer := by
  obtain ⟨hnil, -, rfl⟩ | ⟨hne, s, s', fr₁, hloop, hfire, -, rfl⟩ := replayFacts_cases h
  · rw [RulesManager.registerChannels_state, hnil, batch_nil]
  · have hcollect := replayLoop_state hloop
    rw [RulesManager.registerReplayChannels_state] at hcollect
    obtain ⟨rfl, -⟩ := KieSession.fireAllRules_ok hfire
    rw [RulesManager.registerChannels_state, ← KieEngine.fire, hcollect, batch]
    exact (if_neg (by simpa using hne)).symm

/-- The object's version is the node's, and its bytes read as a session. -/
structure Stores (rm : RulesManager) (r : ReleaseId) (s : HAKieSerializedSession F)
    (state : E.State) : Prop where
  /-- The node runs the release. -/
  running : rm.Running r
  /-- No upgrade is due. -/
  version : s.version = r.version
  /-- The session that the bytes read as. -/
  session : rm.deserializeOrCreate E ⟨r⟩ s.session = .ok (.ofState state)

omit [Fact F] in
/-- What a replay changes, and the counters, have nothing to do with what is stored. -/
theorem Stores.of_drains {s s' : HAKieSerializedSession F} (h : Stores rm r s state)
    (hd : Drains s s') : Stores rm r s' state :=
  ⟨h.running, by rw [hd.rest]; exact h.version, by rw [hd.rest]; exact h.session⟩

/-- Where the version is the node's there is nothing to upgrade. -/
theorem Stores.upgradeIfNeeded_run (h : Stores rm r fr.this state) :
    upgradeIfNeeded (E := E) rm fr = .ok () fr := by
  have hneeded : fr.this.isUpgradeNeeded rm = .ok false := by
    unfold isUpgradeNeeded
    rw [h.running.getReleaseId]
    simp [bind, Except.bind, h.version]
  rw [upgradeIfNeeded, bind_of_ok this_run, hneeded, bind_of_ok (lift_ok false)]
  rfl

/-- A build that returns has taken the buffer as one batch, and leaves what is stored. -/
theorem Stores.buildSession_state (h : Stores rm r fr.this state)
    (hb : buildSession rm fr = .ok session fr') :
    session.state = batch E.take E.fire state fr.this.buffer ∧ Stores rm r fr'.this state ∧
      fr'.this.buffer = [] := by
  have hreplayed : fr.this.replayed (E := E) rm false = .ok (.ofState state) := by
    simp only [replayed, Bool.false_eq_true, if_false, h.running.getKieContainer]
    exact h.session
  rw [buildSession_run, hreplayed] at hb
  obtain ⟨hdrains, hnil⟩ := replayFacts_this hb
  exact ⟨replayFacts_state hb, h.of_drains hdrains, hnil⟩

/-- A snapshot whose work returns has taken the buffer as one batch and stores the result. -/
theorem Stores.snapshotBody_stores (hround : E.RoundTrips r) (h : Stores rm r fr.this state)
    (hb : snapshotBody (E := E) rm fr = .ok () fr') :
    Stores rm r fr'.this (batch E.take E.fire state fr.this.buffer) ∧ fr'.this.buffer = [] := by
  rw [snapshotBody, bind_of_ok h.upgradeIfNeeded_run] at hb
  simp only [bind_eq_ok, lift_eq_ok, modifyThis_run] at hb
  obtain ⟨session, fr₁, hbuild, container, fr₂, ⟨hc, h₂⟩, bytes, fr₃, ⟨hbytes, h₃⟩, hb⟩ := hb
  obtain ⟨hstate, hstores, hnil⟩ := h.buildSession_state hbuild
  cases h₂
  cases h₃
  cases hb
  rw [h.running.getKieContainer] at hc
  cases hc
  refine ⟨⟨h.running, hstores.version, ?_⟩, hnil⟩
  -- The bytes are those of the batch's session, and read as it.
  have hmarshall : E.marshall r session.state = .ok bytes := by
    simp only [RulesManager.serialize, except_bind_eq_ok] at hbytes
    obtain ⟨-, -, hbytes⟩ := hbytes
    exact hbytes
  have hread := hround _ _ hmarshall
  show rm.deserializeOrCreate E ⟨r⟩ (some bytes) = _
  simp only [RulesManager.deserializeOrCreate, h.running.checkStatus, hread, ← hstate]
  rfl

/-- An `add` leaves what is stored and buffers the fact. -/
theorem Stores.add_stores (h : Stores rm r fr.this state) (ha : add (E := E) rm f fr = .ok () fr') :
    Stores rm r fr'.this state ∧ fr'.this.buffer = fr.this.buffer ++ [f] := by
  rw [add, bind_of_ok h.upgradeIfNeeded_run] at ha
  simp only [bind_eq_ok, modifyThis_run, this_run] at ha
  obtain ⟨_, fr₁, h₁, _, fr₂, h₂, ha⟩ := ha
  cases h₁
  cases h₂
  generalize needToSave rm _ = save at ha
  cases save with
  | false =>
    cases ha
    exact ⟨⟨h.running, h.version, h.session⟩, rfl⟩
  | true =>
    simp only [onlyIf_true, createSnapshot_run] at ha
    cases ha
    exact ⟨⟨h.running, h.version, h.session⟩, rfl⟩

/-- A rebuild without a pending snapshot hands out the session with the buffer as one batch. -/
theorem Stores.rebuild_state {h : HAKieSession E} (hs : Stores rm r fr.this state)
    (hsaving : fr.this.saving = false) (hr : rebuild rm fr = .ok h fr') :
    ∃ k, h.session = some k ∧ k.state = batch E.take E.fire state fr.this.buffer := by
  rw [rebuild, bind_of_ok (waitForSnapshotToComplete_of_not_saving hsaving),
    bind_of_ok hs.upgradeIfNeeded_run] at hr
  simp only [bind_eq_ok, pure_run] at hr
  obtain ⟨session, fr₁, hbuild, hr⟩ := hr
  cases hr
  exact ⟨session, rfl, (hs.buildSession_state hbuild).1⟩

end HAKieSerializedSession

namespace Replica

/-- The fact that an event adds. -/
def Event.facts : Event F → List F
  | .add f => [f]
  | _ => []

/-- The batches that snapshots have cut the facts into, and the facts since the last of them. -/
def cut : List (List F) × List F → Event F → List (List F) × List F
  | (bs, b), .add f => (bs, b ++ [f])
  | (bs, b), .snapshot => (bs ++ [b], [])
  | c, .createSnapshot | c, .updateToVersion _ => c

/-- The batches of a run of events; the last of them is what a rebuild then replays. -/
def batchesOf (events : List (Event F)) : List (List F) :=
  let (bs, b) := events.foldl cut ([], [])
  bs ++ [b]

omit [Fact F] in
theorem cut_flatten (c : List (List F) × List F) (a : Event F) :
    (cut c a).1.flatten ++ (cut c a).2 = c.1.flatten ++ c.2 ++ a.facts := by
  obtain ⟨bs, b⟩ := c
  cases a <;> simp [cut, Event.facts]

omit [Fact F] in
/-- The batches are the facts of the run, in order. -/
theorem batchesOf_flatten (events : List (Event F)) :
    (batchesOf events).flatten = events.flatMap Event.facts := by
  have hrun : ∀ c : List (List F) × List F, (events.foldl cut c).1.flatten ++ (events.foldl cut c).2 =
      c.1.flatten ++ c.2 ++ events.flatMap Event.facts := by
    induction events with
    | nil => simp
    | cons a events ih =>
      intro c
      rw [List.foldl_cons, ih, cut_flatten, List.flatMap_cons]
      simp
  simp [batchesOf, hrun]

variable (E)

/-- The event is a call that returns, and the node's rules stay. -/
def Returns (r : Replica F) : Event F → Bool
  | .add f => returned (HAKieSerializedSession.add (E := E) r.rulesManager f ⟨r.session, []⟩)
  | .createSnapshot => true
  | .snapshot =>
    returned (HAKieSerializedSession.snapshotBody (E := E) r.rulesManager ⟨r.session, []⟩)
  | .updateToVersion _ => false

variable {E} {rel : ReleaseId} {r r' : Replica F} {a : Event F} {s : E.State}
  {c : List (List F) × List F}

/-- The replica stores the session of the batches so far and buffers the facts since. -/
structure Holds (rel : ReleaseId) (s : E.State) (r : Replica F) (c : List (List F) × List F) :
    Prop where
  /-- What is stored. -/
  stores : r.session.Stores r.rulesManager rel (batches E.take E.fire s c.1)
  /-- What is buffered. -/
  buffer : r.session.buffer = c.2

/-- An event that returns keeps the replica at the batches that it cuts. -/
theorem step_holds (hround : E.RoundTrips rel) (h : Holds rel s r c) (ha : r.Returns E a = true)
    (hstep : (lts E).step r a = some r') : Holds rel s r' (cut c a) := by
  obtain ⟨bs, b⟩ := c
  obtain ⟨hstores, hbuffer⟩ := h
  change r.session.buffer = b at hbuffer
  subst hbuffer
  cases a with
  | add f =>
    obtain ⟨_, fr, hadd⟩ := returned_iff.1 ha
    cases hstep
    obtain ⟨hstores', hbuffer'⟩ := hstores.add_stores (by exact hadd)
    have hrun : r.run E (HAKieSerializedSession.add r.rulesManager f) = ⟨r.rulesManager, fr.this⟩ := by
      rw [run, hadd]
      rfl
    rw [hrun]
    exact ⟨hstores', hbuffer'⟩
  | createSnapshot =>
    cases hstep
    rw [run, HAKieSerializedSession.createSnapshot_run]
    exact ⟨⟨hstores.running, hstores.version, hstores.session⟩, rfl⟩
  | snapshot =>
    obtain ⟨_, fr, hbody⟩ := returned_iff.1 ha
    simp only [lts] at hstep
    split at hstep
    · cases hstep
      obtain ⟨hstores', hnil⟩ := hstores.snapshotBody_stores hround (by exact hbody)
      have hrun : r.run E (HAKieSerializedSession.snapshotTask r.rulesManager) =
          ⟨r.rulesManager, fr.this.saved⟩ := by
        rw [run, HAKieSerializedSession.snapshotTask_of_ok hbody]
        rfl
      rw [hrun]
      refine ⟨?_, hnil⟩
      show HAKieSerializedSession.Stores _ _ _ (batches _ _ _ (bs ++ [_]))
      rw [batches_concat]
      exact ⟨hstores'.running, hstores'.version, hstores'.session⟩
    · cases hstep
  | updateToVersion version => cases ha

/-- A run of events that return ends at the batches that it has cut. -/
theorem exec_holds (hround : E.RoundTrips rel) {events : List (Event F)} (h : Holds rel s r c)
    (hreturns : (lts E).Guarded (fun r a => r.Returns E a = true) r events)
    (hexec : (lts E).exec r events = some r') : Holds rel s r' (events.foldl cut c) := by
  induction events generalizing r c with
  | nil =>
    cases hexec
    exact h
  | cons a events ih =>
    obtain ⟨r₁, hstep, hrest⟩ := (lts E).exec_cons_eq_some.1 hexec
    exact ih (step_holds hround h hreturns.1 hstep) (hreturns.2 r₁ hstep) hrest

/-- The session that a rebuild hands out has taken the facts of the run batch by batch, where the
pending snapshot, if there is one, returns. -/
theorem rebuild_state (hround : E.RoundTrips rel) {events : List (Event F)} {r₀ : Replica F}
    (hstart : r₀.session.Stores r₀.rulesManager rel s) (hnil : r₀.session.buffer = [])
    (hreturns : (lts E).Guarded (fun r a => r.Returns E a = true) r₀ events)
    (hexec : (lts E).exec r₀ events = some r)
    (hpending : r.session.saving = true → r.Returns E .snapshot = true) {h : HAKieSession E}
    {fr : Frame (Delivery E.Message) (HAKieSerializedSession F)}
    (hrebuild : HAKieSerializedSession.rebuild r.rulesManager ⟨r.session, []⟩ = .ok h fr) :
    ∃ k, h.session = some k ∧ k.state = batches E.take E.fire s (batchesOf events) := by
  have hholds : Holds rel s r (events.foldl cut ([], [])) :=
    exec_holds hround ⟨hstart, hnil⟩ hreturns hexec
  generalize hc : events.foldl cut ([], []) = c at hholds
  obtain ⟨bs, b⟩ := c
  obtain ⟨hstores, hbuffer⟩ := hholds
  have hbatches : batches E.take E.fire s (batchesOf events) =
      batch E.take E.fire (batches E.take E.fire s bs) b := by
    rw [batchesOf, hc]
    exact batches_concat E.take E.fire s bs b
  change r.session.buffer = b at hbuffer
  subst hbuffer
  rw [hbatches]
  cases hsaving : r.session.saving with
  | false => exact hstores.rebuild_state hsaving hrebuild
  | true =>
    -- The pending snapshot stores the last batch, and the rebuild replays an empty one.
    obtain ⟨_, fr₁, hbody⟩ := returned_iff.1 (hpending hsaving)
    obtain ⟨hstores₁, hnil₁⟩ := hstores.snapshotBody_stores hround (by exact hbody)
    have htask := HAKieSerializedSession.snapshotTask_of_ok hbody
    rw [HAKieSerializedSession.rebuild_of_saving (by exact hsaving) htask rfl] at hrebuild
    have hstores₂ : fr₁.this.saved.Stores r.rulesManager rel _ :=
      ⟨hstores₁.running, hstores₁.version, hstores₁.session⟩
    obtain ⟨k, hk, hstate⟩ := hstores₂.rebuild_state rfl hrebuild
    refine ⟨k, hk, hstate.trans ?_⟩
    show batch E.take E.fire _ fr₁.this.buffer = _
    rw [hnil₁]
    rfl

end Replica

/-! ## The comparison -/

/-- **Replay reproduces the primary.** A replica that stores a session and the primary owner that
holds it take the same facts. Whatever the facts are and however snapshots cut them into batches,
the session that `rebuild` then hands out is the stored one after one firing for each batch, and its
clock is the primary owner's. It is the primary owner's session when no batch has more than one
fact, and when a firing absorbs the earlier firings of its batch. -/
theorem rebuild_reproduces {rel : ReleaseId} {r₀ r : Replica F} {events : List (Replica.Event F)}
    {k : KieSession E} {h : HAKieSession E} {rm : RulesManager}
    {fr : Frame (Delivery E.Message) (HAKieSerializedSession F)}
    {fr' : Frame (Delivery E.Message) (HAKieSession E)}
    (hround : E.RoundTrips rel) (hclock : E.PseudoClock)
    (hstart : r₀.session.Stores r₀.rulesManager rel k.state) (hnil : r₀.session.buffer = [])
    (hreturns : (Replica.lts E).Guarded (fun r a => r.Returns E a = true) r₀ events)
    (hexec : (Replica.lts E).exec r₀ events = some r)
    (hpending : r.session.saving = true → r.Returns E .snapshot = true)
    (hrebuild : HAKieSerializedSession.rebuild r.rulesManager ⟨r.session, []⟩ = .ok h fr)
    (hprimary : HAKieSession.insertAll rm (events.flatMap Replica.Event.facts)
      ⟨{ session := some k }, []⟩ = .ok () fr') :
    ∃ rebuilt primary, h.session = some rebuilt ∧ fr'.this.session = some primary ∧
      rebuilt.state = batches E.take E.fire k.state (Replica.batchesOf events) ∧
      E.getCurrentTime rebuilt.state = E.getCurrentTime primary.state ∧
      ((∀ b ∈ Replica.batchesOf events, b.length ≤ 1) → rebuilt.state = primary.state) ∧
      ((∀ facts, Absorbs E.take E.fire (stepwise E.take E.fire k.state facts)) →
        rebuilt.state = primary.state) := by
  obtain ⟨rebuilt, hrebuilt, hbatches⟩ :=
    Replica.rebuild_state hround hstart hnil hreturns hexec hpending hrebuild
  obtain ⟨primary, hprimary, hstepwise⟩ := HAKieSession.insertAll_state rfl hprimary
  have hflatten := Replica.batchesOf_flatten events
  rw [← hflatten] at hstepwise
  refine ⟨rebuilt, primary, hrebuilt, hprimary, hbatches, ?_, fun hone => ?_, fun habsorbs => ?_⟩
  · rw [hbatches, hstepwise]
    exact observe_batches hclock.take hclock.fireAllRules k.state _
  · rw [hbatches, hstepwise]
    exact batches_eq_stepwise_of_length_le_one hone k.state
  · rw [hbatches, hstepwise]
    exact batches_eq_stepwise_iff.2 habsorbs _

section Recorder

open Recorder in
theorem recorder_roundTrips (update : ReleaseId → ReleaseId → UpdateOutcome) (r : ReleaseId) :
    (recorder update).RoundTrips r := fun _ _ h => unmarshall_of_marshall h

theorem recorder_pseudoClock (update : ReleaseId → ReleaseId → UpdateOutcome) :
    (recorder update).PseudoClock where
  advanceTime _ _ := rfl
  insert f s := by
    simp only [recorder]
    split <;> rfl
  fireAllRules _ := rfl

/-- A replica of the recording engine that has stored nothing. -/
def emptyReplica : Replica Reading := ⟨Recorder.manager (jstr "1"), { version := jstr "1" }⟩

/-- It stores a new session. -/
theorem emptyReplica_stores : emptyReplica.session.Stores (E := recorder fun _ _ => .completed)
    emptyReplica.rulesManager ⟨jstr "g", jstr "a", jstr "1"⟩ {} :=
  ⟨Recorder.manager_running _, rfl, rfl⟩

/-- The session that a rebuild hands out after a run of events. -/
def rebuiltAfter (events : List (Replica.Event Reading)) : Option Recorder.State :=
  ((Replica.lts (recorder fun _ _ => .completed)).exec emptyReplica events).bind fun r =>
    match HAKieSerializedSession.rebuild (E := recorder fun _ _ => .completed) r.rulesManager
        ⟨r.session, []⟩ with
    | .ok h _ => h.session.map KieSession.state
    | .error _ _ => none

/-- The session of the primary owner after the same facts. -/
def primaryAfter (facts : List Reading) : Option Recorder.State :=
  match HAKieSession.insertAll (E := recorder fun _ _ => .completed) emptyReplica.rulesManager facts
      ⟨{ session := some (.ofState ({} : Recorder.State)) }, []⟩ with
  | .ok _ fr => fr.this.session.map KieSession.state
  | .error _ _ => none

/-- Two readings with a snapshot between them. -/
def oneByOne : List (Replica.Event Reading) := [.add ⟨7⟩, .createSnapshot, .snapshot, .add ⟨9⟩]

/-- Then the rebuilt session is the primary owner's. -/
theorem rebuild_reproduces_oneByOne :
    ∃ s, rebuiltAfter oneByOne = some s ∧ primaryAfter [⟨7⟩, ⟨9⟩] = some s := by
  have hrun : ((Replica.lts (recorder fun _ _ => .completed)).exec emptyReplica oneByOne).any
      (fun r => !r.session.saving && returned (HAKieSerializedSession.rebuild
        (E := recorder fun _ _ => .completed) r.rulesManager ⟨r.session, []⟩)) := by
    decide +kernel
  have hinserts : returned (HAKieSession.insertAll (E := recorder fun _ _ => .completed)
      emptyReplica.rulesManager [⟨7⟩, ⟨9⟩]
        ⟨{ session := some (.ofState ({} : Recorder.State)) }, []⟩) := by
    decide +kernel
  obtain ⟨r, hexec, hr⟩ := (Option.any_eq_true _ _).1 hrun
  rw [Bool.and_eq_true, Bool.not_eq_true'] at hr
  obtain ⟨h, fr, hrebuild⟩ := returned_iff.1 hr.2
  obtain ⟨_, fr', hprimary⟩ := returned_iff.1 hinserts
  obtain ⟨rebuilt, primary, hsession, hsession', -, -, hone, -⟩ :=
    rebuild_reproduces (recorder_roundTrips _ _) (recorder_pseudoClock _) emptyReplica_stores rfl
      (by decide +kernel) hexec (by simp [hr.1]) hrebuild hprimary
  have hsame : rebuilt.state = primary.state := hone (by decide)
  refine ⟨primary.state, ?_, ?_⟩
  · simp only [rebuiltAfter, hexec, Option.bind_some, hrebuild, hsession]
    exact congrArg some hsame
  · simp only [primaryAfter, hprimary, hsession']
    rfl

/-- Two readings together: on the primary owner the rule has seen the first of them alone, on the
replica it has not. -/
theorem rebuild_differs :
    (recorder fun _ _ => .completed).RoundTrips ⟨jstr "g", jstr "a", jstr "1"⟩ ∧
      (Replica.lts (recorder fun _ _ => .completed)).Guarded
        (fun r a => r.Returns (recorder fun _ _ => .completed) a = true) emptyReplica
        [.add ⟨7⟩, .add ⟨9⟩] ∧
      rebuiltAfter [.add ⟨7⟩, .add ⟨9⟩] = some ⟨9, 0, [⟨7⟩, ⟨9⟩]⟩ ∧
      primaryAfter [⟨7⟩, ⟨9⟩] = some ⟨9, 1, [⟨7⟩, ⟨9⟩]⟩ :=
  ⟨recorder_roundTrips _ _, by decide +kernel, by decide +kernel, by decide +kernel⟩

end Recorder

end Hacep
