import Hacep.Session.Externalizer
import Hacep.Session.Failure

/-!
# The counter and the buffer

`size` is kept by hand beside the queue, and `needToSave` looks at it and not at the queue. `add`
counts the fact that it buffers, and a replay that gets through its loop sets the counter to zero
over an empty buffer. Two things do not restore the equality. `size` is transient: `readObject`
fills the buffer of a new object without counting, so a transfer of buffered facts leaves a counter
of zero. And a replay that throws in its loop has taken facts out of the buffer that the counter
still counts.

`counted_iff` takes any sequence of operations on any nodes: the counter is the number of buffered
facts after each of them, and the buffer is within its limit whenever no snapshot is pending,
exactly when every operation is `Exact`, which says of the state before it that neither of the two
happens.

The proof has one lemma for each call that may replay. `Tallied` says what the call leaves of an
exact counter, whether it returns or throws: an exact one, if and only if the facts in the buffer go
through the loop.
-/

namespace Hacep

open Java Wire

variable {F : Type} [Fact F] {E : KieEngine F}

/-! ## Getting through the loop -/

/-- What a turn of the loop makes of a session's state: the fact has an instant that a clock can be
set to, and the engine takes it. -/
def KieEngine.tryTake (E : KieEngine F) (state : E.State) (fact : F) : Option E.State := do
  let instant ← Fact.getInstant fact
  let gts ← instant.toEpochMilli.toOption
  let taken := E.insert fact (E.advanceTime (gts - E.getCurrentTime state) state)
  if taken.2.isNone then some taken.1 else none

theorem KieEngine.tryTake_eq_some {state state' : E.State} {fact : F} :
    E.tryTake state fact = some state' ↔
      ∃ instant gts, Fact.getInstant fact = some instant ∧ instant.toEpochMilli = .ok gts ∧
        E.insert fact (E.advanceTime (gts - E.getCurrentTime state) state) = (state', none) := by
  have htoOption : ∀ {x : Except Throwable Int64} {gts}, x.toOption = some gts ↔ x = .ok gts := by
    intro x gts
    cases x <;> simp [Except.toOption]
  simp only [tryTake, Option.bind_eq_bind, Option.bind_eq_some_iff, htoOption]
  constructor
  · rintro ⟨instant, hinstant, gts, hgts, hinsert⟩
    refine ⟨instant, gts, hinstant, hgts, ?_⟩
    split at hinsert
    · rename_i hnone
      rw [Option.isNone_iff_eq_none] at hnone
      cases hinsert
      exact Prod.ext rfl hnone
    · cases hinsert
  · rintro ⟨instant, gts, hinstant, hgts, hinsert⟩
    exact ⟨instant, hinstant, gts, hgts, by rw [hinsert]; rfl⟩

namespace HAKieSerializedSession

variable {rm : RulesManager} {f : F} {e : Throwable}
  {fr fr' : Frame (Delivery E.Message) (HAKieSerializedSession F)} {session session' : KieSession E}

/-- The loop returns exactly when the engine takes the facts one after the other. -/
theorem replayLoop_returns_iff {facts : List F} :
    (∃ session' fr', replayLoop session facts fr = .ok session' fr') ↔
      (facts.foldlM E.tryTake session.state).isSome := by
  induction facts generalizing session fr with
  | nil => exact iff_of_true ⟨session, fr, rfl⟩ rfl
  | cons fact facts ih =>
    simp only [replayLoop, bind_eq_ok, modifyThis_run, onLocal_eq_ok, List.foldlM_cons,
      Option.bind_eq_bind]
    constructor
    · rintro ⟨s', fr', _, fr₁, h₁, s₂, fr₂, ⟨hadv, h₂⟩, s₃, fr₃, ⟨hins, h₃⟩, h⟩
      obtain ⟨instant, gts, hinstant, hgts, hset⟩ := KieSessionUtils.advanceClock_eq_ok.1 hadv
      obtain ⟨hnone, htaken⟩ := KieSession.insert_eq_ok.1 hins
      simp only [Frame.mk.injEq] at hset htaken
      rw [hset.1] at hnone htaken
      have htake : E.tryTake session.state fact = some s₃.state := by
        refine KieEngine.tryTake_eq_some.2 ⟨instant, gts, hinstant, hgts, ?_⟩
        rw [htaken.1, ← hnone]
      rw [htake, Option.bind_some]
      exact ih.1 ⟨s', fr', h⟩
    · intro h
      obtain ⟨_, hstate⟩ := Option.isSome_iff_exists.1 h
      obtain ⟨state, htake, hrest⟩ := Option.bind_eq_some_iff.1 hstate
      obtain ⟨instant, gts, hinstant, hgts, hinsert⟩ := KieEngine.tryTake_eq_some.1 htake
      have hsome : (facts.foldlM E.tryTake state).isSome := by
        rw [hrest]
        rfl
      obtain ⟨s', fr', h⟩ : ∃ s' fr', replayLoop ⟨state, session.channels⟩ facts
          ⟨{ fr.this with buffer := facts }, fr.out⟩ = .ok s' fr' := ih.2 hsome
      refine ⟨s', fr', (), _, rfl, ⟨E.advanceTime (gts - E.getCurrentTime session.state)
        session.state, session.channels⟩, ⟨{ fr.this with buffer := facts }, fr.out⟩, ⟨?_, rfl⟩,
        ⟨state, session.channels⟩, _, ⟨?_, rfl⟩, h⟩
      · exact KieSessionUtils.advanceClock_eq_ok.2 ⟨instant, gts, hinstant, hgts, rfl⟩
      · rw [KieSession.insert_eq_ok, hinsert]
        exact ⟨rfl, rfl⟩

/-- The loop does not write the counter. -/
theorem replayLoop_size (facts : List F) (n : ℕ) :
    ∀ session : KieSession E, Keeps (fun s => s.size = n) (replayLoop session facts) := by
  induction facts with
  | nil => exact fun session => .pure _
  | cons fact facts ih =>
    intro session
    refine Keeps.bind (.modifyThis fun s hs => hs) fun _ _ _ _ => ?_
    refine Keeps.bind (.onLocal _ _) fun _ _ _ _ => ?_
    exact Keeps.bind (.onLocal _ _) fun _ _ _ _ => ih _

/-- A replay that begins gets through its loop: the engine takes the facts in the buffer. `due` says
whether it is the replay of an upgrade. -/
def goesThrough (E : KieEngine F) (rm : RulesManager) (s : HAKieSerializedSession F) (due : Bool) :
    Bool :=
  match s.replayed (E := E) rm due with
  | .ok session => (s.buffer.foldlM E.tryTake session.state).isSome
  | .error _ => true

/-! ## What a call leaves of an exact counter -/

/-- The counter is the number of buffered facts. -/
def Counted (s : HAKieSerializedSession F) : Prop := s.size = s.buffer.length

/-- What a call that may replay leaves of an exact counter: an exact one, if and only if the facts
go `through` the loop. The buffer does not grow, and a pending snapshot is left alone. -/
structure Tallied (through : Bool) (s s' : HAKieSerializedSession F) : Prop where
  counted : s'.Counted ↔ through = true
  shorter : s'.buffer.length ≤ s.buffer.length
  saving : s'.saving = s.saving

omit [Fact F] in
/-- A call that has not begun to replay leaves the counter exact. -/
theorem tallied_self {s : HAKieSerializedSession F} (hs : s.Counted) : Tallied true s s :=
  ⟨iff_of_true hs rfl, Nat.le_refl _, rfl⟩

omit [Fact F] in
/-- What comes after an exact counter decides. -/
theorem Tallied.trans {through through' : Bool} {s s' s'' : HAKieSerializedSession F}
    (h : Tallied through s s') (h' : Tallied through' s' s'') : Tallied through' s s'' :=
  ⟨h'.counted, h'.shorter.trans h.shorter, h'.saving.trans h.saving⟩

/-- The loop and the firing. -/
theorem replayBuffer_tallied (hs : fr.this.Counted) :
    Tallied (fr.this.buffer.foldlM E.tryTake session.state).isSome fr.this
      (finalFrame (replayBuffer rm session fr)).this := by
  have hreturns : (∃ s fr', replayLoop (rm.registerReplayChannels session) fr.this.buffer fr =
      .ok s fr') ↔ (fr.this.buffer.foldlM E.tryTake session.state).isSome := by
    rw [replayLoop_returns_iff, RulesManager.registerReplayChannels_state]
  rw [replayBuffer, bind_of_ok this_run]
  cases hloop : replayLoop (rm.registerReplayChannels session) fr.this.buffer fr with
  | ok s fr₁ =>
    rw [hloop] at hreturns
    rw [hreturns.1 ⟨s, fr₁, rfl⟩, bind_of_ok hloop, bind_of_ok (modifyThis_run _)]
    have hthis : fr₁.this = { fr.this with buffer := [] } := replayLoop_this rfl hloop
    refine Keeps.onLocal s _ _ ⟨iff_of_true ?_ rfl, ?_, ?_⟩
    · rw [hthis]
      rfl
    · rw [hthis]
      exact Nat.zero_le _
    · rw [hthis]
  | error e fr₁ =>
    have hstuck : (fr.this.buffer.foldlM E.tryTake session.state).isSome = false := by
      rw [← Bool.not_eq_true, ← hreturns, hloop]
      simp
    rw [hstuck, bind_of_error hloop]
    -- The counter still counts the facts that the loop has taken out.
    obtain ⟨hdrains, hlt⟩ := replayLoop_error rfl hloop
    have hsize : fr₁.this.size = fr.this.size := (replayLoop_size _ _ _).error hloop rfl
    refine ⟨iff_of_false ?_ Bool.false_ne_true, hlt.le, by rw [finalFrame, hdrains.rest]⟩
    intro hcounted
    rw [Counted, finalFrame, hsize, hs] at hcounted
    omega

/-- A replay, whether it returns or throws. -/
theorem replayFacts_tallied (hs : fr.this.Counted) :
    Tallied (fr.this.buffer.foldlM E.tryTake session.state).isSome fr.this
      (finalFrame (replayFacts rm session fr)).this := by
  rw [replayFacts, bind_of_ok this_run]
  refine Keeps.after (P := Tallied _ fr.this) ?_ fun _ => .pure _
  cases hbuffer : fr.this.buffer.isEmpty with
  | true =>
    rw [List.isEmpty_iff.1 hbuffer]
    exact tallied_self hs
  | false => exact replayBuffer_tallied hs

/-- A build, whether it returns or throws. -/
theorem buildSession_tallied (hs : fr.this.Counted) :
    Tallied (fr.this.goesThrough E rm false) fr.this
      (finalFrame (buildSession (E := E) rm fr)).this := by
  rw [buildSession_run, goesThrough]
  cases fr.this.replayed (E := E) rm false with
  | ok session => exact replayFacts_tallied hs
  | error e => exact tallied_self hs

/-- An upgrade, whether it returns or throws. -/
theorem rebuildSessionAndUpgrade_tallied (hs : fr.this.Counted) :
    Tallied (fr.this.goesThrough E rm true) fr.this
      (finalFrame (rebuildSessionAndUpgrade (E := E) rm fr)).this := by
  rw [rebuildSessionAndUpgrade, bind_of_ok this_run]
  simp only [goesThrough, replayed, if_true]
  cases hc : rm.newKieContainer E fr.this.version with
  | error e => exact tallied_self hs
  | ok container =>
    rw [bind_of_ok (lift_ok container)]
    show Tallied (match rm.deserializeOrCreate E container fr.this.session with
      | .ok session => (fr.this.buffer.foldlM E.tryTake session.state).isSome
      | .error _ => true) fr.this _
    cases hk : rm.deserializeOrCreate E container fr.this.session with
    | error e => exact tallied_self hs
    | ok session =>
      rw [bind_of_ok (lift_ok session)]
      refine Keeps.after (P := Tallied _ fr.this) (replayFacts_tallied hs) fun session => ?_
      -- What comes after the replay writes neither the buffer nor the counter.
      refine Keeps.bind (.lift _) fun _ _ _ _ => ?_
      refine Keeps.bind (.lift _) fun _ _ _ _ => ?_
      refine Keeps.bind (.lift _) fun _ _ _ _ => ?_
      refine Keeps.bind (.modifyThis fun s hs => ⟨hs.counted, hs.shorter, hs.saving⟩) ?_
      refine fun _ _ _ _ => Keeps.bind (.lift _) fun _ _ _ _ => ?_
      exact .modifyThis fun s hs => ⟨hs.counted, hs.shorter, hs.saving⟩

/-- Moving to the current rules gets through the loop, where it replays. -/
def upgradesThrough (E : KieEngine F) (rm : RulesManager) (s : HAKieSerializedSession F) : Bool :=
  match s.isUpgradeNeeded rm with
  | .ok true => s.goesThrough E rm true
  | _ => true

/-- Moving to the current rules, then building the session, gets through the loop. -/
def restoresThrough (E : KieEngine F) (rm : RulesManager) (s : HAKieSerializedSession F) : Bool :=
  match s.isUpgradeNeeded rm with
  | .ok due => s.goesThrough E rm due
  | .error _ => true

/-- Moving to the current rules, whether it returns or throws. -/
theorem upgradeIfNeeded_tallied (hs : fr.this.Counted) :
    Tallied (fr.this.upgradesThrough E rm) fr.this
      (finalFrame (upgradeIfNeeded (E := E) rm fr)).this := by
  rw [upgradeIfNeeded, bind_of_ok this_run, upgradesThrough]
  cases fr.this.isUpgradeNeeded rm with
  | error e => exact tallied_self hs
  | ok due =>
    rw [bind_of_ok (lift_ok due)]
    cases due with
    | false => exact tallied_self hs
    | true => exact rebuildSessionAndUpgrade_tallied hs

/-- A replay that returns has emptied the buffer, and the counter says so. -/
theorem replayFacts_emptied (hs : fr.this.Counted)
    (h : replayFacts rm session fr = .ok session' fr') :
    fr'.this.size = 0 ∧ fr'.this.buffer = [] := by
  refine ⟨?_, (replayFacts_this h).2⟩
  obtain ⟨hnil, rfl, -⟩ | ⟨-, s, s', fr₁, -, -, hthis, -⟩ := replayFacts_cases h
  · rw [hs, hnil]
    rfl
  · rw [hthis]

/-- A build that returns has emptied the buffer, and the counter says so. -/
theorem buildSession_emptied (hs : fr.this.Counted) (h : buildSession rm fr = .ok session' fr') :
    fr'.this.size = 0 ∧ fr'.this.buffer = [] := by
  simp only [buildSession, bind_eq_ok, this_run, lift_eq_ok] at h
  obtain ⟨_, fr₁, h₁, container, fr₂, ⟨-, h₂⟩, s₁, fr₃, ⟨-, h₃⟩, h⟩ := h
  cases h₁
  cases h₂
  cases h₃
  exact replayFacts_emptied hs h

/-- An upgrade that returns has emptied the buffer, and the counter says so. -/
theorem rebuildSessionAndUpgrade_emptied (hs : fr.this.Counted)
    (h : rebuildSessionAndUpgrade (E := E) rm fr = .ok () fr') :
    fr'.this.size = 0 ∧ fr'.this.buffer = [] := by
  simp only [rebuildSessionAndUpgrade, bind_eq_ok, this_run, lift_eq_ok, modifyThis_run] at h
  obtain ⟨_, fr₁, h₁, container, fr₂, ⟨-, h₂⟩, s₁, fr₃, ⟨-, h₃⟩, s₂, fr₄, hreplay, h⟩ := h
  obtain ⟨target, fr₅, ⟨-, h₅⟩, ⟨container', s₃⟩, fr₆, ⟨-, h₆⟩, bytes, fr₇, ⟨-, h₇⟩, h⟩ := h
  obtain ⟨_, fr₈, h₈, current, fr₉, ⟨-, h₉⟩, h⟩ := h
  cases h₁
  cases h₈
  cases h
  rw [h₃, h₂] at hreplay
  rw [h₉, h₇, h₆, h₅]
  have hemptied := replayFacts_emptied hs hreplay
  exact ⟨hemptied.1, hemptied.2⟩

omit [Fact F] in
theorem counted_of_emptied {s : HAKieSerializedSession F} (h : s.size = 0 ∧ s.buffer = []) :
    s.Counted := by
  rw [Counted, h.1, h.2]
  rfl

/-- Moving to the current rules, where it returns, keeps the counter exact. -/
theorem upgradeIfNeeded_counted (hs : fr.this.Counted)
    (h : upgradeIfNeeded (E := E) rm fr = .ok () fr') : fr'.this.Counted := by
  rcases upgradeIfNeeded_eq_ok h with ⟨-, rfl⟩ | ⟨-, hup⟩
  · exact hs
  · exact counted_of_emptied (rebuildSessionAndUpgrade_emptied hs hup)

/-- With an empty buffer there is no loop to get through. -/
theorem goesThrough_of_nil {s : HAKieSerializedSession F} (hnil : s.buffer = []) (due : Bool) :
    s.goesThrough E rm due = true := by
  rw [goesThrough, hnil]
  cases s.replayed (E := E) rm due <;> rfl

/-- Moving to the current rules and building the session, whether that returns or throws. -/
theorem restore_tallied (hs : fr.this.Counted) :
    Tallied (fr.this.restoresThrough E rm) fr.this
      (finalFrame (restore (E := E) rm fr)).this := by
  have hupgrade : Tallied (fr.this.upgradesThrough E rm) fr.this
      (finalFrame (upgradeIfNeeded (E := E) rm fr)).this := upgradeIfNeeded_tallied hs
  rw [restoresThrough, restore]
  rw [upgradesThrough] at hupgrade
  cases hdue : fr.this.isUpgradeNeeded rm with
  | error e =>
    -- It is not known whether an upgrade is needed, and nothing is done.
    have hup : upgradeIfNeeded (E := E) rm fr = .error e fr := by
      rw [upgradeIfNeeded, bind_of_ok this_run, hdue]
      rfl
    rw [bind_of_error hup]
    exact tallied_self hs
  | ok due =>
    rw [hdue] at hupgrade
    cases due with
    | false =>
      have hup : upgradeIfNeeded (E := E) rm fr = .ok () fr := by
        rw [upgradeIfNeeded, bind_of_ok this_run, hdue]
        rfl
      rw [bind_of_ok hup]
      exact buildSession_tallied hs
    | true =>
      cases hup : upgradeIfNeeded (E := E) rm fr with
      | error e fr₁ =>
        rw [hup] at hupgrade
        rw [bind_of_error hup]
        exact hupgrade
      | ok a fr₁ =>
        -- The upgrade has emptied the buffer, and the build has no loop to get through.
        rw [hup] at hupgrade
        rw [bind_of_ok hup]
        have hcounted : fr₁.this.Counted := upgradeIfNeeded_counted hs hup
        have hnil : fr₁.this.buffer = [] := by
          rcases upgradeIfNeeded_eq_ok hup with ⟨hneeded, -⟩ | ⟨-, hup⟩
          · cases hdue.symm.trans hneeded
          · exact (rebuildSessionAndUpgrade_emptied hs hup).2
        have hbuild : Tallied (fr₁.this.goesThrough E rm false) fr₁.this
            (finalFrame (buildSession (E := E) rm fr₁)).this := buildSession_tallied hcounted
        rw [goesThrough_of_nil hnil] at hbuild
        have hthrough : fr.this.goesThrough E rm true = true := hupgrade.counted.1 hcounted
        show Tallied (fr.this.goesThrough E rm true) _ _
        rw [hthrough]
        exact hupgrade.trans hbuild

/-! ## The limit -/

/-- The counter is exact, and where no snapshot is pending the buffer is within its limit. -/
structure Within (limit : ℤ) (s : HAKieSerializedSession F) : Prop where
  counted : s.Counted
  bounded : 0 ≤ limit → s.saving = false → s.buffer.length ≤ limit

omit [Fact F] in
/-- An empty buffer is within any limit. -/
theorem within_of_emptied {s : HAKieSerializedSession F} (h : s.size = 0 ∧ s.buffer = [])
    (limit : ℤ) : s.Within limit := by
  refine ⟨counted_of_emptied h, fun hlimit _ => ?_⟩
  rw [h.2]
  exact hlimit

omit [Fact F] in
/-- Where the counter stays exact the buffer stays within its limit, since it does not grow. -/
theorem Tallied.within_iff {through : Bool} {s s' : HAKieSerializedSession F} {limit : ℤ}
    (h : Tallied through s s') (hs : s.Within limit) : s'.Within limit ↔ through = true := by
  refine ⟨fun h' => h.counted.1 h'.counted, fun hthrough => ⟨h.counted.2 hthrough, ?_⟩⟩
  intro hlimit hsaving
  have hbounded := hs.bounded hlimit (h.saving.symm.trans hsaving)
  have hshorter : (s'.buffer.length : ℤ) ≤ s.buffer.length := by exact_mod_cast h.shorter
  exact hshorter.trans hbounded

omit [Fact F] in
/-- A buffer over its limit asks for a snapshot. -/
theorem needToSave_within (hs : fr.this.Counted) :
    (finalFrame (onlyIf (fr.this.needToSave rm) (createSnapshot (E := E)) fr)).this.Within
      rm.getMaxBufferSize := by
  cases hsave : fr.this.needToSave rm with
  | false =>
    refine ⟨hs, fun _ _ => ?_⟩
    have hlimit : ¬rm.getMaxBufferSize < (fr.this.size : ℤ) := by simpa [needToSave] using hsave
    rw [hs] at hlimit
    exact not_lt.1 hlimit
  | true =>
    rw [onlyIf_true, createSnapshot_run]
    exact ⟨hs, fun _ hsaving => nomatch hsaving⟩

/-- An `add`, whether it returns or throws: what the upgrade leaves decides. -/
theorem add_within (hs : fr.this.Within rm.getMaxBufferSize) :
    (finalFrame (add (E := E) rm f fr)).this.Within rm.getMaxBufferSize ↔
      fr.this.upgradesThrough E rm = true := by
  have hupgrade : Tallied (fr.this.upgradesThrough E rm) fr.this
      (finalFrame (upgradeIfNeeded (E := E) rm fr)).this := upgradeIfNeeded_tallied hs.counted
  rw [add]
  cases hup : upgradeIfNeeded (E := E) rm fr with
  | error e fr₁ =>
    rw [hup] at hupgrade
    rw [bind_of_error hup]
    exact hupgrade.within_iff hs
  | ok a fr₁ =>
    rw [hup] at hupgrade
    rw [bind_of_ok hup]
    have hcounted : fr₁.this.Counted := upgradeIfNeeded_counted hs.counted hup
    refine iff_of_true ?_ (hupgrade.counted.1 hcounted)
    rw [bind_of_ok (modifyThis_run _), bind_of_ok this_run]
    refine needToSave_within ?_
    show fr₁.this.size + 1 = (fr₁.this.buffer ++ [f]).length
    rw [hcounted, List.length_append]
    rfl

/-- The work of a snapshot that returns has emptied the buffer, and the counter says so. -/
theorem snapshotBody_emptied (hs : fr.this.Counted)
    (h : snapshotBody (E := E) rm fr = .ok () fr') :
    fr'.this.size = 0 ∧ fr'.this.buffer = [] := by
  simp only [snapshotBody, bind_eq_ok, lift_eq_ok, modifyThis_run] at h
  obtain ⟨_, fr₁, hup, s, fr₂, hbuild, container, fr₃, ⟨-, h₃⟩, bytes, fr₄, ⟨-, h₄⟩, h⟩ := h
  cases h₃
  cases h₄
  cases h
  have hemptied := buildSession_emptied (upgradeIfNeeded_counted hs hup) hbuild
  exact ⟨hemptied.1, hemptied.2⟩

end HAKieSerializedSession

omit [Fact F] in
/-- An update of the rules leaves the limit. -/
theorem RulesManager.updateToVersion_getMaxBufferSize {rm rm' : RulesManager} {v : JString}
    {ok : Bool} (h : rm.updateToVersion E v = .ok (ok, rm')) :
    rm'.getMaxBufferSize = rm.getMaxBufferSize := by
  simp only [updateToVersion, except_bind_eq_ok] at h
  obtain ⟨-, -, h⟩ := h
  split at h
  · cases h
  · obtain ⟨container, -, h⟩ := except_bind_eq_ok.1 h
    split at h <;> cases h <;> rfl

omit [Fact F] in
/-- A read that returns is on a node whose rules are started. -/
theorem HASerializedSessionExternalizer.getReleaseId_of_readObject {codec : FactCodec F}
    {rm : RulesManager} {bytes rest : List UInt8} {s : HAKieSerializedSession F}
    (h : (readObject codec rm).run bytes = some (s, rest)) : ∃ r, rm.getReleaseId = .ok r := by
  rw [readObject, StateT.run_bind] at h
  obtain ⟨a, hnew, -⟩ := Option.bind_eq_some_iff.1 h
  cases hr : rm.getReleaseId with
  | ok r => exact ⟨r, rfl⟩
  | error e =>
    have hnone : (HAKieSerializedSession.new rm).toOption =
        (none : Option (HAKieSerializedSession F)) := by
      simp [HAKieSerializedSession.new, hr, bind, Except.bind, Except.toOption]
    rw [hnone] at hnew
    cases hnew

namespace Replica

/-! ## Runs -/

/-- What happens to a session that is kept on a node, or moves to another one. -/
inductive Operation (F : Type)
  | add (f : F)
  | createSnapshot
  /-- The pending snapshot runs, and its work returns. -/
  | snapshot
  | upgrade
  /-- `rebuild`, after its wait for a pending snapshot. -/
  | rebuild
  | updateToVersion (version : JString)
  /-- `writeObject`, then `readObject` on the node with these rules. -/
  | transfer (rulesManager : RulesManager)

/-- The session and its node, with one operation at a time. A call that throws leaves what it wrote
before the exception; a transfer that throws moves nothing. -/
def operations (E : KieEngine F) (codec : FactCodec F) : Lts (Replica F) (Operation F) where
  step r
    | .add f => some (r.run E (HAKieSerializedSession.add r.rulesManager f))
    | .createSnapshot => some (r.run E HAKieSerializedSession.createSnapshot)
    | .snapshot =>
      let saved := HAKieSerializedSession.snapshotBody (E := E) r.rulesManager ⟨r.session, []⟩
      if r.session.saving && returned saved then
        some (r.run E (HAKieSerializedSession.snapshotTask r.rulesManager))
      else none
    | .upgrade => some (r.run E (HAKieSerializedSession.upgradeIfNeeded r.rulesManager))
    | .rebuild =>
      -- The wait is over when no snapshot is pending.
      if r.session.saving then none
      else
        let rebuilt := HAKieSerializedSession.rebuild (E := E) r.rulesManager ⟨r.session, []⟩
        some { r with session := (finalFrame rebuilt).this }
    | .updateToVersion version =>
      match r.rulesManager.updateToVersion E version with
      | .ok (_, rulesManager) => some { r with rulesManager := rulesManager }
      | .error _ => some r
    | .transfer rm => do
      let bytes ← HASerializedSessionExternalizer.writeObject codec r.session
      let (session, _) ← (HASerializedSessionExternalizer.readObject codec rm).run bytes
      some ⟨rm, session⟩

/-- The operation does not leave a false counter: a transfer moves no buffered facts, and what an
upgrade or a rebuild replays gets through the loop. -/
def Exact (E : KieEngine F) (r : Replica F) : Operation F → Bool
  | .add _ | .upgrade => r.session.upgradesThrough E r.rulesManager
  | .rebuild => r.session.restoresThrough E r.rulesManager
  | .transfer _ => r.session.buffer.isEmpty
  | .createSnapshot | .snapshot | .updateToVersion _ => true

section Step

variable {codec : FactCodec F} {r r' : Replica F} {op : Operation F}

/-- The session is within the limit of its node. -/
abbrev Within (r : Replica F) : Prop := r.session.Within r.rulesManager.getMaxBufferSize

/-- A transfer that returns gives the node that reads it a copy. -/
theorem transfer_spec {rm : RulesManager} (hne : r.session.BytesNonempty)
    (h : (operations E codec).step r (.transfer rm) = some r') :
    ∃ release, r' = ⟨rm, r.session.copy release⟩ := by
  simp only [operations, Option.bind_eq_bind, Option.bind_eq_some_iff, Option.some.injEq] at h
  obtain ⟨bytes, hwrite, read, hread, rfl⟩ := h
  obtain ⟨session, rest⟩ := read
  obtain ⟨release, hrelease⟩ := HASerializedSessionExternalizer.getReleaseId_of_readObject hread
  have hcopy :=
    (HASerializedSessionExternalizer.readObject_writeObject hrelease hne hwrite).run
  rw [hread, Option.some.injEq] at hcopy
  exact ⟨release, by rw [hcopy]⟩

/-- No operation makes the bytes of the session empty. -/
theorem operations_bytesNonempty (hmarshall : ∀ r s b, E.marshall r s = .ok b → b.val ≠ [])
    (hne : r.session.BytesNonempty)
    (h : (operations E codec).step r op = some r') : r'.session.BytesNonempty := by
  have hstable := HAKieSerializedSession.stable_bytesNonempty hmarshall
  cases op with
  | add f =>
    cases h
    exact hstable.keeps_add f _ hne
  | createSnapshot =>
    cases h
    exact hstable.keeps_createSnapshot _ hne
  | snapshot =>
    simp only [operations] at h
    split at h
    · cases h
      exact hstable.keeps_snapshotTask _ hne
    · cases h
  | upgrade =>
    cases h
    exact hstable.keeps_upgradeIfNeeded _ hne
  | rebuild =>
    simp only [operations] at h
    split at h
    · cases h
    · cases h
      exact hstable.keeps_rebuild _ hne
  | updateToVersion version =>
    simp only [operations] at h
    split at h <;> cases h <;> exact hne
  | transfer rm =>
    obtain ⟨release, rfl⟩ := transfer_spec hne h
    exact hne

/-- Of a session whose counter is exact, each operation leaves one whose counter is exact if and
only if the operation is. -/
theorem operations_within_iff (hne : r.session.BytesNonempty) (hs : r.Within)
    (h : (operations E codec).step r op = some r') : r'.Within ↔ r.Exact E op = true := by
  cases op with
  | add f =>
    cases h
    exact HAKieSerializedSession.add_within hs
  | createSnapshot =>
    cases h
    -- From now on a snapshot is pending, and only the counter matters.
    refine iff_of_true ?_ rfl
    rw [Within, run, HAKieSerializedSession.createSnapshot_run]
    exact ⟨hs.counted, fun _ hsaving => nomatch hsaving⟩
  | snapshot =>
    simp only [operations] at h
    split at h
    · rename_i hreturns
      cases h
      refine iff_of_true ?_ rfl
      -- Its work has returned, so it has emptied the buffer and reset the counter.
      rw [Bool.and_eq_true, returned_iff] at hreturns
      obtain ⟨-, _, fr, hbody⟩ := hreturns
      rw [Within, run, HAKieSerializedSession.snapshotTask_of_ok hbody]
      have hemptied := HAKieSerializedSession.snapshotBody_emptied hs.counted hbody
      exact HAKieSerializedSession.within_of_emptied (s := fr.this.saved) hemptied _
    · cases h
  | upgrade =>
    cases h
    have hcounted : HAKieSerializedSession.Counted
        (⟨r.session, []⟩ : Frame (Delivery E.Message) _).this := hs.counted
    exact (HAKieSerializedSession.upgradeIfNeeded_tallied hcounted).within_iff hs
  | rebuild =>
    simp only [operations] at h
    split at h
    · cases h
    · rename_i hsaving
      cases h
      have hcounted : HAKieSerializedSession.Counted
          (⟨r.session, []⟩ : Frame (Delivery E.Message) _).this := hs.counted
      rw [HAKieSerializedSession.rebuild_final (by simpa using hsaving)]
      exact (HAKieSerializedSession.restore_tallied hcounted).within_iff hs
  | updateToVersion version =>
    simp only [operations] at h
    split at h
    · rename_i hupdate
      cases h
      -- The limit is the node's, whatever its version.
      rw [Within, RulesManager.updateToVersion_getMaxBufferSize hupdate]
      exact iff_of_true hs rfl
    · cases h
      exact iff_of_true hs rfl
  | transfer rm =>
    obtain ⟨release, rfl⟩ := transfer_spec hne h
    -- The copy has the facts, and the counter of a new object.
    rw [Exact, List.isEmpty_iff]
    constructor
    · intro h'
      have hcounted : 0 = r.session.buffer.length := h'.counted
      exact List.length_eq_zero_iff.1 hcounted.symm
    · intro hnil
      exact HAKieSerializedSession.within_of_emptied (s := r.session.copy release) ⟨rfl, hnil⟩ _

end Step

/-- In any run of operations that begins with a session as a constructor makes it, on any nodes,
these two are the same: in every state reached the counter is the number of buffered facts, and the
buffer is within its limit where no snapshot is pending; and every operation is exact in the state
before it. -/
theorem counted_iff (codec : FactCodec F)
    (hmarshall : ∀ r s b, E.marshall r s = .ok b → b.val ≠ []) {r r' : Replica F}
    {ops : List (Operation F)} (hr : HAKieSerializedSession.Constructed E r.session)
    (hexec : (operations E codec).exec r ops = some r') :
    (operations E codec).Always Within r ops ↔
      (operations E codec).Guarded (fun r op => r.Exact E op = true) r ops := by
  have hstart : r.Within := by
    refine HAKieSerializedSession.within_of_emptied ?_ _
    rcases hr with ⟨rm, hnew⟩ | ⟨rm, c, k, version, bytes, -, hbytes⟩
    · simp only [HAKieSerializedSession.new, except_bind_eq_ok] at hnew
      obtain ⟨release, -, hnew⟩ := hnew
      rw [← Except.ok.inj hnew]
      exact ⟨rfl, rfl⟩
    · rw [hbytes]
      exact ⟨rfl, rfl⟩
  exact (operations E codec).always_iff_guarded _ (fun r => r.session.BytesNonempty) Within
    (fun _ _ _ hne _ h => operations_bytesNonempty hmarshall hne h)
    (fun _ _ _ hne hs h => operations_within_iff hne hs h)
    (hr.bytesNonempty hmarshall) hstart hexec

/-- A session of version 1 on a node of version 1 whose buffers hold one reading. -/
def limited : Replica Reading where
  rulesManager := { Recorder.manager (jstr "1") with gridBuffer := some 1 }
  session := { version := jstr "1" }

theorem limited_constructed :
    HAKieSerializedSession.Constructed Recorder.engine limited.session :=
  .inl ⟨Recorder.manager (jstr "1"), rfl⟩

/-- Two readings are saved, and the session moves to a node of version 2, which buffers another. -/
def savedThenMoved : List (Operation Reading) :=
  [.add ⟨7⟩, .add ⟨8⟩, .snapshot, .transfer (Recorder.manager (jstr "2")), .add ⟨9⟩, .rebuild]

theorem counted_iff_savedThenMoved :
    (operations Recorder.engine readingCodec).Always Within limited savedThenMoved := by
  have hrun : ((operations Recorder.engine readingCodec).exec limited
      savedThenMoved).isSome = true := by
    decide +kernel
  obtain ⟨r', hexec⟩ := Option.isSome_iff_exists.1 hrun
  refine (counted_iff readingCodec (recorder_marshall_ne_nil _) limited_constructed hexec).2 ?_
  decide +kernel

/-- A session with one buffered reading moves to another node of version 1, and another reading
comes: the counter says one, two are buffered, which is over the limit, and no snapshot is pending.
-/
theorem movedBuffer_uncounted :
    ∃ r', HAKieSerializedSession.Constructed Recorder.engine limited.session ∧
      (operations Recorder.engine readingCodec).exec limited
        [.add ⟨7⟩, .transfer limited.rulesManager, .add ⟨8⟩] = some r' ∧
      r'.rulesManager.getMaxBufferSize = 1 ∧ r'.session.saving = false ∧
      r'.session.size = 1 ∧ r'.session.buffer = [⟨7⟩, ⟨8⟩] := by
  have hrun : ((operations Recorder.engine readingCodec).exec limited
      [.add ⟨7⟩, .transfer limited.rulesManager, .add ⟨8⟩]).any (fun r' =>
        decide (r'.rulesManager.getMaxBufferSize = 1 ∧ r'.session.saving = false ∧
          r'.session.size = 1 ∧ r'.session.buffer = [⟨7⟩, ⟨8⟩])) = true := by
    decide +kernel
  obtain ⟨r', hexec, hr'⟩ := (Option.any_eq_true _ _).1 hrun
  exact ⟨r', limited_constructed, hexec, of_decide_eq_true hr'⟩

end Replica

end Hacep
