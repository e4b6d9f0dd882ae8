import Hacep.Session.Threads

/-!
# The channels of a session

A session has no channels when it is made or read. A replay registers the replay channels before it
inserts a fact, and the real channels after it has fired, over the replay channels: a name that only
the latter had would still lead to its replay channel. Where the configuration gives the same names
to both (`SameNames`), the two sets replace each other, and a session that has been replayed has the
channels of a new one (`registerChannels_of_silent`).

`Statement.Channels` says which channels the session of a thread has at each statement. Every
statement keeps it, and what a statement delivers goes to replay channels
(`Statement.Runs.channels`, `next_error_channels`), so that a serialized session and the calls on it
stay `Silent` whatever their order is.
-/

namespace Hacep

open Java

/-- A channel that `getChannels` hands out. -/
def Channel.isReal : Channel → Bool
  | .real _ => true
  | .replay _ => false

namespace RulesConfiguration

/-- The channels of a new session after `registerChannels`. -/
def liveChannels (c : RulesConfiguration) (name : JString) : Option Channel :=
  (RulesManager.lookup c.channels name).map .real

/-- The channels of a new session after `registerReplayChannels`. -/
def silentChannels (c : RulesConfiguration) (name : JString) : Option Channel :=
  (RulesManager.lookup c.replayChannels name).map .replay

end RulesConfiguration

variable {F : Type} {E : KieEngine F}

namespace RulesManager

/-- The fold of `lookup` finds an object where it starts with one, or where the name is listed. -/
theorem foldl_lookup_isSome (channels : List (JString × ℕ)) (name : JString) (found : Option ℕ) :
    (channels.foldl (fun found (n, c) => if name = n then some c else found) found).isSome ↔
      found.isSome ∨ name ∈ channels.map Prod.fst := by
  induction channels generalizing found with
  | nil => simp
  | cons nc channels ih =>
    obtain ⟨n, c⟩ := nc
    rw [List.foldl_cons, ih, List.map_cons, List.mem_cons]
    by_cases hn : name = n
    · simp [hn]
    · simp [hn]

/-- A name has an object exactly when it is listed. -/
theorem lookup_isSome (channels : List (JString × ℕ)) (name : JString) :
    (lookup channels name).isSome ↔ name ∈ channels.map Prod.fst := by
  unfold lookup
  rw [foldl_lookup_isSome]
  simp

variable (rm : RulesManager)

/-- A session without channels has the real channels after `registerChannels`. -/
theorem registerChannels_of_none {s : KieSession E} (h : s.channels = fun _ => none) :
    (rm.registerChannels s).channels = rm.rulesConfiguration.liveChannels := by
  funext name
  rw [registerChannels_channels, h, Option.or_none]
  rfl

/-- A session without channels has the replay channels after `registerReplayChannels`. -/
theorem registerReplayChannels_of_none {s : KieSession E} (h : s.channels = fun _ => none) :
    (rm.registerReplayChannels s).channels = rm.rulesConfiguration.silentChannels := by
  funext name
  rw [registerReplayChannels_channels, h, Option.or_none]
  rfl

/-- The real channels replace the replay channels. -/
theorem registerChannels_of_silent {s : KieSession E} (hnames : rm.rulesConfiguration.SameNames)
    (h : s.channels = rm.rulesConfiguration.silentChannels) :
    (rm.registerChannels s).channels = rm.rulesConfiguration.liveChannels := by
  funext name
  rw [registerChannels_channels, h]
  unfold RulesConfiguration.liveChannels RulesConfiguration.silentChannels
  -- The name has both channels, or neither.
  have hsame : (lookup rm.rulesConfiguration.channels name).isSome ↔
      (lookup rm.rulesConfiguration.replayChannels name).isSome := by
    rw [lookup_isSome, lookup_isSome]
    exact hnames name
  cases hlive : lookup rm.rulesConfiguration.channels name with
  | some c => rfl
  | none =>
    have hsilent : lookup rm.rulesConfiguration.replayChannels name = none := by
      rw [hlive] at hsame
      simpa using hsame
    rw [hsilent]
    rfl

/-- A session with the real channels is what `registerChannels` makes of a new one with its state.
-/
theorem eq_registerChannels_of_live {s : KieSession E}
    (h : s.channels = rm.rulesConfiguration.liveChannels) :
    s = rm.registerChannels (.ofState s.state) := by
  have hchannels : (rm.registerChannels (.ofState s.state : KieSession E)).channels = s.channels :=
    (rm.registerChannels_of_none rfl).trans h.symm
  have hstate : (rm.registerChannels (.ofState s.state : KieSession E)).state = s.state :=
    rm.registerChannels_state _
  calc s = ⟨s.state, s.channels⟩ := rfl
    _ = ⟨(rm.registerChannels (.ofState s.state : KieSession E)).state,
        (rm.registerChannels (.ofState s.state : KieSession E)).channels⟩ := by
      rw [hchannels, hstate]
    _ = rm.registerChannels (.ofState s.state) := rfl

/-- A session with the replay channels is what `registerReplayChannels` makes of a new one with its
state. -/
theorem eq_registerReplayChannels_of_silent {s : KieSession E}
    (h : s.channels = rm.rulesConfiguration.silentChannels) :
    s = rm.registerReplayChannels (.ofState s.state) := by
  have hchannels :
      (rm.registerReplayChannels (.ofState s.state : KieSession E)).channels = s.channels :=
    (rm.registerReplayChannels_of_none rfl).trans h.symm
  have hstate : (rm.registerReplayChannels (.ofState s.state : KieSession E)).state = s.state :=
    rm.registerReplayChannels_state _
  calc s = ⟨s.state, s.channels⟩ := rfl
    _ = ⟨(rm.registerReplayChannels (.ofState s.state : KieSession E)).state,
        (rm.registerReplayChannels (.ofState s.state : KieSession E)).channels⟩ := by
      rw [hchannels, hstate]
    _ = rm.registerReplayChannels (.ofState s.state) := rfl

end RulesManager

/-- A session reaches replay channels only, where it has no others. -/
theorem KieSession.deliveries_of_silent {s : KieSession E} {c : RulesConfiguration}
    (h : s.channels = c.silentChannels) (sent : List (JString × E.Message)) :
    ∀ d ∈ s.deliveries sent, d.channel.isReal = false := by
  intro d hd
  simp only [KieSession.deliveries, h, RulesConfiguration.silentChannels, List.mem_filterMap,
    Option.map_map, Option.map_eq_some_iff] at hd
  obtain ⟨⟨name, message⟩, -, object, -, rfl⟩ := hd
  rfl

/-- A session reaches real channels only, where it has no others. -/
theorem KieSession.deliveries_of_live {s : KieSession E} {c : RulesConfiguration}
    (h : s.channels = c.liveChannels) (sent : List (JString × E.Message)) :
    ∀ d ∈ s.deliveries sent, d.channel.isReal = true := by
  intro d hd
  simp only [KieSession.deliveries, h, RulesConfiguration.liveChannels, List.mem_filterMap,
    Option.map_map, Option.map_eq_some_iff] at hd
  obtain ⟨⟨name, message⟩, -, object, -, rfl⟩ := hd
  rfl

/-! ## Calls on a serialized session -/

/-- The channels of the session that a thread builds, at the statement that is next. -/
def Statement.Channels (c : RulesConfiguration) : Statement E → Prop
  | .replay work false => work.session.channels = fun _ => none
  | .replay work true | .fire work => work.session.channels = c.silentChannels
  | .update work | .store work | .rebuilt work => work.session.channels = c.liveChannels
  | _ => True

/-- What follows `replayFacts` has the real channels. -/
theorem Job.afterReplay_channels {c : RulesConfiguration} (job : Job F) {work : Work E}
    (h : work.session.channels = c.liveChannels) : (job.afterReplay work).Channels c := by
  unfold Job.afterReplay
  split
  · exact h
  · cases job <;> exact h

theorem Job.start_channels (c : RulesConfiguration) (job : Job F) :
    (job.start : Statement E).Channels c := by
  cases job <;> trivial

theorem Job.afterThrow_channels (c : RulesConfiguration) (job : Job F) :
    (job.afterThrow : Statement E).Channels c := by
  cases job <;> trivial

theorem Job.afterUpgrade_channels (c : RulesConfiguration) (job : Job F) :
    (job.afterUpgrade : Statement E).Channels c := by
  cases job <;> trivial

/-- A container update moves the session to other rules and leaves it its channels. -/
theorem Statement.Channels.migrate {c : RulesConfiguration} {pc : Statement E}
    (h : pc.Channels c) (target : ReleaseId) : (pc.mapWork (·.migrate target)).Channels c := by
  have hwork : ∀ work : Work E, (work.migrate target).session.channels = work.session.channels := by
    intro work
    unfold Work.migrate
    split <;> rfl
  cases pc with
  | replay work begun => cases begun <;> exact (hwork work).trans h
  | fire work | update work | store work | rebuilt work => exact (hwork work).trans h
  | _ => exact h

theorem KieContainer.updateToVersion_channels {container container' : KieContainer}
    {target : ReleaseId} {s s' : KieSession E}
    (h : container.updateToVersion target s = .ok (container', s')) : s'.channels = s.channels := by
  unfold KieContainer.updateToVersion at h
  split at h <;> cases h <;> rfl

theorem RulesManager.newKieSession_channels {rm : RulesManager} {container : KieContainer}
    {s : KieSession E} (h : rm.newKieSession E container = .ok s) : s.channels = fun _ => none := by
  simp only [RulesManager.newKieSession, except_bind_eq_ok] at h
  obtain ⟨-, -, h⟩ := h
  cases h
  rfl

theorem RulesManager.deserializeOrCreate_channels {rm : RulesManager} {container : KieContainer}
    {buffer : Option JBytes} {s : KieSession E}
    (h : rm.deserializeOrCreate E container buffer = .ok s) : s.channels = fun _ => none := by
  cases buffer with
  | none => exact RulesManager.newKieSession_channels h
  | some bytes =>
    simp only [RulesManager.deserializeOrCreate, except_bind_eq_ok] at h
    obtain ⟨-, -, h⟩ := h
    split at h <;> cases h
    rfl

section Step

variable [Fact F] {rm : RulesManager} {job : Job F} {s s' : Shared E} {pc pc' : Statement E}
  {out : List (Delivery E.Message)} {e : Throwable}

/-- A statement that returns leaves the session of its thread the channels that the next statement
relies on, and what it delivers goes to replay channels. -/
theorem Statement.Runs.channels (hnames : rm.rulesConfiguration.SameNames)
    (h : Statement.Runs rm job s pc pc' s' out) (hpc : pc.Channels rm.rulesConfiguration) :
    pc'.Channels rm.rulesConfiguration ∧ ∀ d ∈ out, d.channel.isReal = false := by
  cases h with
  | waitForSnapshot =>
    refine ⟨?_, by simp⟩
    split <;> trivial
  | check needed hneeded =>
    refine ⟨?_, by simp⟩
    split
    · trivial
    · exact job.afterUpgrade_channels _
  | deserialize container session hsession =>
    exact ⟨RulesManager.deserializeOrCreate_channels hsession, by simp⟩
  | build container session hcontainer hsession =>
    exact ⟨RulesManager.deserializeOrCreate_channels hsession, by simp⟩
  | nothing work hbuffer =>
    exact ⟨job.afterReplay_channels (rm.registerChannels_of_none hpc), by simp⟩
  | begin work hbuffer => exact ⟨rm.registerReplayChannels_of_none hpc, by simp⟩
  | remove work fact rest advanced inserted hbuffer hadvance hinsert =>
    -- Neither the clock nor the insertion touches the channels.
    obtain ⟨⟨d, hadvanced⟩, -⟩ := KieSessionUtils.advanceClock_ok hadvance
    obtain ⟨-, hinserted, -⟩ := KieSession.insert_ok hinsert
    have hchannels : inserted.channels = work.session.channels := by
      rw [hinserted, hadvanced]
    exact ⟨hchannels.trans hpc, by simp⟩
  | done work hbuffer => exact ⟨hpc, by simp⟩
  | fire work fired out hfire =>
    -- The rules fire into the replay channels, and then the real ones replace these.
    obtain ⟨hfired, hout⟩ := KieSession.fireAllRules_ok hfire
    have hsilent : fired.channels = rm.rulesConfiguration.silentChannels := by
      rw [hfired]
      exact hpc
    refine ⟨job.afterReplay_channels (rm.registerChannels_of_silent hnames hsilent), ?_⟩
    rw [hout, List.nil_append]
    exact KieSession.deliveries_of_silent hpc _
  | update work target container session htarget hupdate =>
    exact ⟨(KieContainer.updateToVersion_channels hupdate).trans hpc, by simp⟩
  | store work container bytes hcontainer hbytes =>
    refine ⟨?_, by simp⟩
    split <;> trivial
  | setVersion r hr => exact ⟨job.afterUpgrade_channels _, by simp⟩
  | needToSave =>
    refine ⟨?_, by simp⟩
    split <;> trivial
  | compareAndSet =>
    refine ⟨?_, by simp⟩
    split <;> trivial
  | _ => exact ⟨trivial, by simp⟩

/-- What a statement has delivered when it throws has gone to replay channels. -/
theorem next_error_channels (h : next rm job pc ⟨s, []⟩ = .error e ⟨s', out⟩)
    (hpc : pc.Channels rm.rulesConfiguration) : ∀ d ∈ out, d.channel.isReal = false := by
  rcases next_eq_error rm h with ⟨-, rfl | ⟨work, fired, rfl, hfire⟩⟩ | ⟨rfl, -⟩
  · simp
  · obtain ⟨-, hout⟩ := KieSession.fireAllRules_error hfire
    rw [hout, List.nil_append]
    exact KieSession.deliveries_of_silent hpc _
  · simp

/-- A statement keeps what has been delivered. -/
theorem Statement.Runs.sent (h : Statement.Runs rm job s pc pc' s' out) : s'.sent = s.sent := by
  cases h <;> rfl

/-- A statement that throws keeps what has been delivered. -/
theorem next_error_sent (h : next rm job pc ⟨s, []⟩ = .error e ⟨s', out⟩) : s'.sent = s.sent := by
  rcases next_eq_error rm h with ⟨rfl, -⟩ | ⟨-, work, fact, rest, -, -, rfl⟩ <;> rfl

end Step

/-- The calls on a serialized session have delivered to replay channels only, and each of them is
set to go on doing so. -/
structure System.Silent (s : System E) : Prop where
  /-- What the calls have delivered. -/
  sent : ∀ d ∈ s.pool.shared.sent, d.channel.isReal = false
  /-- The channels of the sessions that they build. -/
  threads : ∀ t ∈ s.pool.threads, t.pc.Channels s.rules.rulesConfiguration

namespace System

variable {s s' : System E}

/-- Only the configuration of the rules matters. -/
theorem Silent.of_configuration (h : s.Silent) {rules : RulesManager}
    (hrules : rules.rulesConfiguration = s.rules.rulesConfiguration) :
    (⟨rules, s.pool⟩ : System E).Silent :=
  ⟨h.sent, fun t ht => by rw [hrules]; exact h.threads t ht⟩

/-- A new call leaves the rules as they are. -/
theorem call_configuration {job : Job F} (h : s.call job = some s') :
    s'.rules.rulesConfiguration = s.rules.rulesConfiguration := by
  obtain ⟨queued, rfl⟩ := call_eq_some h
  rfl

/-- A step of a thread leaves the rules as they are. -/
theorem step_configuration [Fact F] {i : ℕ} (h : s.step i = some s') :
    s'.rules.rulesConfiguration = s.rules.rulesConfiguration := by
  obtain ⟨t, shared, t', -, -, rfl⟩ := step_eq_some h
  rfl

/-- A change of the node's rules leaves their configuration. -/
theorem updateToVersion_configuration (s : System E) (version : JString) :
    (s.updateToVersion version).rules.rulesConfiguration = s.rules.rulesConfiguration := by
  rcases s.updateToVersion_cases version with hs | ⟨ok, rules, hok, hs⟩
  · rw [hs]
  · rw [hs]
    exact RulesManager.updateToVersion_configuration hok

/-- A new call is silent. -/
theorem Silent.call (h : s.Silent) {job : Job F} (hs : s.call job = some s') : s'.Silent := by
  obtain ⟨queued, rfl⟩ := call_eq_some hs
  refine ⟨h.sent, fun t ht => ?_⟩
  rcases Pool.mem_spawn.1 ht with ht | rfl
  · exact h.threads t ht
  · exact job.start_channels _

/-- A change of the node's rules is silent. -/
theorem Silent.updateToVersion (h : s.Silent) (version : JString) :
    (s.updateToVersion version).Silent := by
  rcases s.updateToVersion_cases version with hs | ⟨ok, rules, hok, hs⟩
  · rw [hs]
    exact h
  · have hconfiguration := RulesManager.updateToVersion_configuration hok
    rw [hs]
    cases ok with
    | false => exact ⟨h.sent, fun t ht => by rw [hconfiguration]; exact h.threads t ht⟩
    | true =>
      refine ⟨h.sent, fun t ht => ?_⟩
      obtain ⟨u, hu, rfl⟩ := List.mem_map.1 ht
      simp only [hconfiguration]
      exact (h.threads u hu).migrate _

/-- A step of a thread is silent. -/
theorem Silent.step [Fact F] (h : s.Silent) (hnames : s.rules.rulesConfiguration.SameNames) {i : ℕ}
    (hs : s.step i = some s') : s'.Silent := by
  obtain ⟨t, shared, t', ht, hstep, rfl⟩ := step_eq_some hs
  have hpc := h.threads t (Pool.mem_of_getElem? ht)
  -- Whatever the step is, it delivers to replay channels and leaves the thread set to.
  have hthread : t'.pc.Channels s.rules.rulesConfiguration ∧
      ∀ d ∈ shared.sent, d.channel.isReal = false := by
    rcases Thread.step_eq_some s.rules hstep with
      ⟨pc, s₁, out, hruns, rfl, rfl⟩ | ⟨e, s₁, out, herror, rfl, rfl⟩
    · obtain ⟨hpc', hout⟩ := hruns.channels hnames hpc
      refine ⟨hpc', fun d hd => ?_⟩
      rw [hruns.sent] at hd
      exact (List.mem_append.1 hd).elim (h.sent d) (hout d)
    · have hout := next_error_channels herror hpc
      refine ⟨t.job.afterThrow_channels _, fun d hd => ?_⟩
      rw [next_error_sent herror] at hd
      exact (List.mem_append.1 hd).elim (h.sent d) (hout d)
  refine ⟨hthread.2, fun u hu => ?_⟩
  rcases Pool.mem_set ht hu with rfl | ⟨j, -, hu⟩
  · exact hthread.1
  · exact h.threads u (Pool.mem_of_getElem? hu)

/-- A session that a rebuild has returned has its channels, and the calls are silent without it. -/
theorem Silent.handOver (h : s.Silent) {i : ℕ} {t : Thread E} {work : Work E}
    (ht : s.pool.threads[i]? = some t) (hpc : t.pc = .rebuilt work) :
    work.session.channels = s.rules.rulesConfiguration.liveChannels ∧
      (⟨s.rules, s.pool.set i s.pool.shared { t with pc := .returned }⟩ : System E).Silent := by
  have hchannels := h.threads t (Pool.mem_of_getElem? ht)
  rw [hpc] at hchannels
  refine ⟨hchannels, h.sent, fun u hu => ?_⟩
  rcases Pool.mem_set ht hu with rfl | ⟨j, -, hu⟩
  · trivial
  · exact h.threads u (Pool.mem_of_getElem? hu)

end System

end Hacep
