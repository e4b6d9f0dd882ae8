import Hacep.Recorder
import Hacep.Session.Channels

/-!
# Replay is silent

A grid with any number of live and serialized sessions on its nodes. A live session takes facts, one
statement of `HAKieSession.insert` after the other; a serialized session is called by any number of
threads, one statement after the other (`Threads.lean`), and the session that a rebuild returns is
handed over and becomes a live one. A serialized session may come to a node at any time and with any
content: a merge makes it from nothing or from a live session, and a transfer copies it. An update
of a node's container may happen between any two statements on the node.

`replay_silent` is about all runs of the grid: what the calls on serialized sessions deliver, which
is what a replay sends, goes to replay channels; what inserts on live sessions deliver goes to real
channels; and a live session, rebuilt or not, is what `registerChannels` makes of a new one, so that
nobody can tell from what it sends that it has been serialized.
-/

namespace Hacep

open Java

variable {N F : Type} {E : KieEngine F}

/-! ## The statements of an insert -/

/-- A statement of `HAKieSession.insert`. -/
inductive InsertStatement (F : Type)
  /-- `if (session == null)`, with its block. -/
  | openSession
  /-- `lastFact = fact`. -/
  | setLastFact (fact : F)
  /-- `KieSessionUtils.advanceClock(session, fact)`. -/
  | advanceClock (fact : F)
  /-- `session.insert(fact)`. -/
  | insert (fact : F)
  /-- `session.fireAllRules()`. -/
  | fireAllRules

/-- The real channels are registered with the live session, if there is one. -/
def HAKieSession.IsLive (c : RulesConfiguration) (h : HAKieSession E) : Prop :=
  ∀ s, h.session = some s → s.channels = c.liveChannels

/-- The session has the channels that it had, and has delivered to them whatever it has delivered,
whether the call returns or throws. -/
def KieSession.KeepsChannels (m : Call E (KieSession E) Unit) : Prop :=
  ∀ s out, ∃ sent, (finalFrame (m ⟨s, out⟩)).this.channels = s.channels ∧
    (finalFrame (m ⟨s, out⟩)).out = out ++ s.deliveries sent

namespace KieSession

theorem keepsChannels_insert (fact : F) : KeepsChannels (E := E) (KieSession.insert fact) := by
  intro s out
  cases h : KieSession.insert fact ⟨s, out⟩ with
  | ok _ fr =>
    obtain ⟨-, hs, hout⟩ := KieSession.insert_ok h
    exact ⟨[], by rw [finalFrame, hs], by simp [finalFrame, hout, deliveries]⟩
  | error e fr =>
    obtain ⟨-, hs, hout⟩ := KieSession.insert_error h
    exact ⟨[], by rw [finalFrame, hs], by simp [finalFrame, hout, deliveries]⟩

theorem keepsChannels_advanceClock [Fact F] (fact : F) :
    KeepsChannels (E := E) (KieSessionUtils.advanceClock fact) := by
  intro s out
  cases h : KieSessionUtils.advanceClock fact ⟨s, out⟩ with
  | ok _ fr =>
    obtain ⟨⟨d, hs⟩, hout⟩ := KieSessionUtils.advanceClock_ok h
    exact ⟨[], by rw [finalFrame, hs], by simp [finalFrame, hout, deliveries]⟩
  | error e fr =>
    obtain ⟨hs, hout⟩ := KieSessionUtils.advanceClock_error h
    exact ⟨[], by rw [finalFrame, hs], by simp [finalFrame, hout, deliveries]⟩

theorem keepsChannels_fireAllRules : KeepsChannels (E := E) KieSession.fireAllRules := by
  intro s out
  cases h : KieSession.fireAllRules ⟨s, out⟩ with
  | ok _ fr =>
    obtain ⟨hs, hout⟩ := KieSession.fireAllRules_ok h
    exact ⟨_, by rw [finalFrame, hs], hout⟩
  | error e fr =>
    obtain ⟨hs, hout⟩ := KieSession.fireAllRules_error h
    exact ⟨_, by rw [finalFrame, hs], hout⟩

end KieSession

namespace HAKieSession

variable {c : RulesConfiguration} {h : HAKieSession E}

/-- A call that keeps the channels keeps the session live and delivers to real channels. -/
theorem IsLive.onSession (hlive : h.IsLive c) {m : Call E (KieSession E) Unit}
    (hm : KieSession.KeepsChannels m) :
    (finalFrame (onSession m ⟨h, []⟩)).this.IsLive c ∧
      ∀ d ∈ (finalFrame (onSession m ⟨h, []⟩)).out, d.channel.isReal = true := by
  unfold HAKieSession.onSession
  cases hs : h.session with
  | none => exact ⟨hlive, fun _ hd => (nomatch hd)⟩
  | some s =>
    have hchannels : s.channels = c.liveChannels := hlive s hs
    obtain ⟨sent, hkeeps, hout⟩ := hm s []
    simp only
    cases hresult : m ⟨s, []⟩ with
    | ok _ fr | error _ fr =>
      rw [hresult] at hkeeps hout
      refine ⟨fun s' hs' => ?_, ?_⟩
      · cases hs'
        exact hkeeps.trans hchannels
      · simp only [finalFrame, List.nil_append] at hout ⊢
        rw [hout]
        exact KieSession.deliveries_of_live hchannels sent

/-- Opening a session registers the real channels with it, and delivers nothing. -/
theorem IsLive.openSession {rm : RulesManager} (hlive : h.IsLive rm.rulesConfiguration) :
    (finalFrame (openSession rm ⟨h, []⟩)).this.IsLive rm.rulesConfiguration ∧
      (finalFrame (openSession rm ⟨h, []⟩)).out = [] := by
  cases hopen : HAKieSession.openSession rm ⟨h, []⟩ with
  | error e fr =>
    rw [openSession_error hopen]
    exact ⟨hlive, rfl⟩
  | ok _ fr =>
    simp only [HAKieSession.openSession, bind_eq_ok, this_run] at hopen
    obtain ⟨_, _, ⟨rfl, rfl⟩, hopen⟩ := hopen
    cases hs : h.session with
    | some s =>
      rw [hs] at hopen
      cases hopen
      exact ⟨hlive, rfl⟩
    | none =>
      rw [hs] at hopen
      simp only [Option.isNone_none, onlyIf_true, bind_eq_ok, lift_eq_ok, modifyThis_run] at hopen
      obtain ⟨container, _, ⟨-, rfl⟩, s, _, ⟨hnew, rfl⟩, hopen⟩ := hopen
      cases hopen
      refine ⟨fun s' hs' => ?_, rfl⟩
      cases hs'
      exact rm.registerChannels_of_none (RulesManager.newKieSession_channels hnew)

/-- A container update moves the session to other rules and leaves it its channels. -/
theorem IsLive.migrate (hlive : h.IsLive c) (r : ReleaseId) : (h.migrate r).IsLive c := by
  intro s hs
  obtain ⟨t, ht, rfl⟩ := Option.map_eq_some_iff.1 hs
  exact hlive t ht

end HAKieSession

namespace InsertStatement

variable [Fact F]

/-- What a statement does. -/
def run (rm : RulesManager) : InsertStatement F → Call E (HAKieSession E) Unit
  | .openSession => HAKieSession.openSession rm
  | .setLastFact fact => modifyThis fun h => { h with lastFact := some fact }
  | .advanceClock fact => HAKieSession.onSession (KieSessionUtils.advanceClock fact)
  | .insert fact => HAKieSession.onSession (KieSession.insert fact)
  | .fireAllRules => HAKieSession.onSession KieSession.fireAllRules

/-- The statements of `insert(fact)`. -/
def call (fact : F) : List (InsertStatement F) :=
  [.openSession, .setLastFact fact, .advanceClock fact, .insert fact, .fireAllRules]

/-- The statements one after the other. -/
def runAll (rm : RulesManager) : List (InsertStatement F) → Call E (HAKieSession E) Unit
  | [] => pure ()
  | statement :: rest => do
    statement.run rm
    runAll rm rest

/-- The statements of a call are the call. -/
theorem runAll_call (rm : RulesManager) (fact : F) :
    runAll (E := E) rm (call fact) = HAKieSession.insert rm fact := by
  simp only [runAll, call, run, HAKieSession.insert, HAKieSession.takeFact, bind_assoc,
    bind_pure_unit]

/-- A statement of an insert keeps a live session live, and delivers to real channels. -/
theorem run_isLive {rm : RulesManager} {h : HAKieSession E} (statement : InsertStatement F)
    (hlive : h.IsLive rm.rulesConfiguration) :
    (finalFrame (statement.run rm ⟨h, []⟩)).this.IsLive rm.rulesConfiguration ∧
      ∀ d ∈ (finalFrame (statement.run rm ⟨h, []⟩)).out, d.channel.isReal = true := by
  cases statement with
  | openSession =>
    obtain ⟨hlive', hout⟩ := hlive.openSession
    refine ⟨hlive', ?_⟩
    unfold run
    rw [hout]
    exact fun _ hd => (nomatch hd)
  | setLastFact fact => exact ⟨hlive, fun _ hd => (nomatch hd)⟩
  | advanceClock fact => exact hlive.onSession (KieSession.keepsChannels_advanceClock fact)
  | insert fact => exact hlive.onSession (KieSession.keepsChannels_insert fact)
  | fireAllRules => exact hlive.onSession KieSession.keepsChannels_fireAllRules

end InsertStatement

/-! ## The grid -/

/-- A live session on its node. `sent` records what the calls on it have delivered. -/
structure LiveSession (N : Type) (E : KieEngine F) where
  node : N
  session : HAKieSession E := {}
  /-- The statements that are left of the `insert` in progress. -/
  pending : List (InsertStatement F) := []
  sent : List (Delivery E.Message) := []

/-- A serialized session on its node, and the calls on it. -/
structure StoredSession (N : Type) (E : KieEngine F) where
  node : N
  pool : Pool (Shared E) (Thread E)

/-- The nodes of a grid and the sessions on them. -/
structure World (N : Type) (E : KieEngine F) where
  rules : N → RulesManager
  live : List (LiveSession N E) := []
  stored : List (StoredSession N E) := []

namespace World

/-- What happens in a grid. -/
inductive Action (N F : Type)
  /-- A session is made on a node. -/
  | build (node : N)
  /-- A live session that has no insert in progress is given a fact. -/
  | insert (live : ℕ) (fact : F)
  /-- The next statement of the insert in progress. -/
  | statement (live : ℕ)
  /-- A serialized session comes to a node, from a merge or a transfer. -/
  | receive (node : N) (object : HAKieSerializedSession F)
  /-- A call on a serialized session. -/
  | call (stored : ℕ) (job : Job F)
  /-- The next statement of a call. -/
  | step (stored thread : ℕ)
  /-- A session that a rebuild has returned is put into use. -/
  | handOver (stored thread : ℕ)
  /-- `RulesManager.updateToVersion` on a node. -/
  | updateToVersion (node : N) (version : JString)

/-- A whole insert. -/
def wholeInsert (x : ℕ) (fact : F) : List (Action N F) :=
  .insert x fact :: List.replicate 5 (.statement x)

/-- A call, and a number of steps of its thread. -/
def callSteps (x : ℕ) (job : Job F) (thread n : ℕ) : List (Action N F) :=
  .call x job :: List.replicate n (.step x thread)

/-- A grid without sessions. -/
def start (rules : N → RulesManager) : World N E := { rules := rules }

/-- A serialized session with the rules of its node. -/
def system (w : World N E) (o : StoredSession N E) : System E := ⟨w.rules o.node, o.pool⟩

/-- The serialized session after a step of its system. -/
def setStored (w : World N E) (x : ℕ) (o : StoredSession N E) (s : System E) : World N E :=
  { w with stored := w.stored.set x { o with pool := s.pool } }

/-- `RulesManager.updateToVersion` on a node: the sessions of its container go with it. -/
def updateToVersion [DecidableEq N] (w : World N E) (node : N) (version : JString) : World N E :=
  match (w.rules node).updateToVersion E version with
  | .ok (completed, rules) =>
    { rules := Function.update w.rules node rules
      live := w.live.map fun l =>
        if l.node = node ∧ completed then
          { l with session := l.session.migrate (rules.newReleaseId version) }
        else l
      stored := w.stored.map fun o =>
        if o.node = node then { o with pool := ((w.system o).updateToVersion version).pool }
        else o }
  | .error _ => w

end World

section Steps

variable [Fact F]

/-- The next statement of the insert in progress; an exception ends the insert. -/
def LiveSession.step (rm : RulesManager) (l : LiveSession N E) : Option (LiveSession N E) :=
  match l.pending with
  | [] => none
  | statement :: rest =>
    let result := statement.run rm ⟨l.session, []⟩
    some { l with
      session := (finalFrame result).this
      pending := if returned result then rest else []
      sent := l.sent ++ (finalFrame result).out }

/-- The next statement of an insert keeps the session live, and delivers to real channels. -/
theorem LiveSession.step_isLive {rm : RulesManager} {l l' : LiveSession N E} (h : l.step rm = some l')
    (hlive : l.session.IsLive rm.rulesConfiguration) (hsent : ∀ d ∈ l.sent, d.channel.isReal = true) :
    l'.node = l.node ∧ l'.session.IsLive rm.rulesConfiguration ∧
      ∀ d ∈ l'.sent, d.channel.isReal = true := by
  unfold LiveSession.step at h
  split at h
  · cases h
  · cases h
    obtain ⟨hlive', hout⟩ := InsertStatement.run_isLive _ hlive
    exact ⟨rfl, hlive', fun d hd => (List.mem_append.1 hd).elim (hsent d) (hout d)⟩

variable [DecidableEq N]

/-- The grids, with one statement at a time. -/
def World.lts (N : Type) [DecidableEq N] (E : KieEngine F) : Lts (World N E) (World.Action N F) where
  step w
    | .build node => some { w with live := w.live ++ [{ node := node }] }
    | .insert x fact => (w.live[x]?).bind fun l =>
      if l.pending.isEmpty then
        some { w with live := w.live.set x { l with pending := InsertStatement.call fact } }
      else none
    | .statement x => (w.live[x]?).bind fun l =>
      (l.step (w.rules l.node)).map fun l' => { w with live := w.live.set x l' }
    | .receive node object => some { w with
        stored := w.stored ++ [⟨node, { shared := { object := object } }⟩] }
    | .call x job => (w.stored[x]?).bind fun o =>
      ((w.system o).call job).map fun s => w.setStored x o s
    | .step x i => (w.stored[x]?).bind fun o =>
      ((w.system o).step i).map fun s => w.setStored x o s
    | .handOver x i => (w.stored[x]?).bind fun o => (o.pool.threads[i]?).bind fun t =>
      match t.pc with
      | .rebuilt work => some
        { w.setStored x o ⟨w.rules o.node, o.pool.set i o.pool.shared { t with pc := .returned }⟩ with
          live := w.live ++ [{ node := o.node, session := { session := some work.session } }] }
      | _ => none
    | .updateToVersion node version => some (w.updateToVersion node version)

end Steps

namespace World

/-- Replay is silent, and live sessions are not. -/
structure Silent (w : World N E) : Prop where
  /-- What the calls on serialized sessions have sent has gone to replay channels. -/
  replays : ∀ o ∈ w.stored, ∀ d ∈ o.pool.shared.sent, d.channel.isReal = false
  /-- What the inserts on live sessions have sent has gone to real channels. -/
  inserts : ∀ l ∈ w.live, ∀ d ∈ l.sent, d.channel.isReal = true
  /-- A replay fires in a session that is what `registerReplayChannels` makes of a new one. -/
  replaying : ∀ o ∈ w.stored, ∀ t ∈ o.pool.threads, ∀ work, t.pc = .fire work →
    work.session = (w.rules o.node).registerReplayChannels (.ofState work.session.state)
  /-- An insert fires in a session that is what `registerChannels` makes of a new one. -/
  asNew : ∀ l ∈ w.live, ∀ s, l.session.session = some s →
    s = (w.rules l.node).registerChannels (.ofState s.state)

/-- The channels of the sessions of a grid are in order. -/
structure Registered (w : World N E) : Prop where
  /-- The replay channels have the names of the channels. -/
  names : ∀ n, (w.rules n).rulesConfiguration.SameNames
  /-- The serialized sessions and their calls are silent. -/
  stored : ∀ o ∈ w.stored, (w.system o).Silent
  /-- The live sessions have their channels. -/
  live : ∀ l ∈ w.live, l.session.IsLive (w.rules l.node).rulesConfiguration
  /-- They have delivered to these. -/
  sent : ∀ l ∈ w.live, ∀ d ∈ l.sent, d.channel.isReal = true

variable {w w' : World N E}

/-- Where the channels are in order, replay is silent. -/
theorem Registered.silent (h : w.Registered) : w.Silent := by
  refine ⟨fun o ho => (h.stored o ho).sent, h.sent, fun o ho t ht work hpc => ?_, fun l hl s hs => ?_⟩
  · have hchannels := (h.stored o ho).threads t ht
    rw [hpc] at hchannels
    exact RulesManager.eq_registerReplayChannels_of_silent _ hchannels
  · exact RulesManager.eq_registerChannels_of_live _ (h.live l hl s hs)

theorem registered_start {rules : N → RulesManager}
    (hnames : ∀ n, (rules n).rulesConfiguration.SameNames) :
    (start rules : World N E).Registered :=
  ⟨hnames, fun _ ho => (nomatch ho), fun _ hl => (nomatch hl), fun _ hl => (nomatch hl)⟩

/-- A live session that comes, or takes the place of another, must have its channels. -/
theorem Registered.setLive (h : w.Registered) {live : List (LiveSession N E)} {l : LiveSession N E}
    (hlive : ∀ k ∈ live, k ∈ w.live ∨ k = l)
    (hsession : l.session.IsLive (w.rules l.node).rulesConfiguration)
    (hsent : ∀ d ∈ l.sent, d.channel.isReal = true) : ({ w with live := live }).Registered := by
  refine ⟨h.names, h.stored, fun k hk => ?_, fun k hk => ?_⟩
  · rcases hlive k hk with hk | rfl
    · exact h.live k hk
    · exact hsession
  · rcases hlive k hk with hk | rfl
    · exact h.sent k hk
    · exact hsent

/-- A serialized session that comes, or takes the place of another, must be silent. -/
theorem Registered.setStored (h : w.Registered) {stored : List (StoredSession N E)}
    {o : StoredSession N E} (hstored : ∀ k ∈ stored, k ∈ w.stored ∨ k = o)
    (hsilent : (w.system o).Silent) : ({ w with stored := stored }).Registered := by
  refine ⟨h.names, fun k hk => ?_, h.live, h.sent⟩
  rcases hstored k hk with hk | rfl
  · exact h.stored k hk
  · exact hsilent

/-- A change of a node's rules leaves the channels as they are. -/
theorem Registered.updateToVersion [DecidableEq N] (h : w.Registered) (node : N)
    (version : JString) : (w.updateToVersion node version).Registered := by
  unfold World.updateToVersion
  cases hupdate : (w.rules node).updateToVersion E version with
  | error e => exact h
  | ok result =>
    obtain ⟨completed, rules⟩ := result
    have hrules := RulesManager.updateToVersion_configuration hupdate
    have hconfiguration : ∀ n, (Function.update w.rules node rules n).rulesConfiguration =
        (w.rules n).rulesConfiguration := by
      intro n
      by_cases hn : n = node
      · subst hn
        rw [Function.update_self, hrules]
      · rw [Function.update_of_ne hn]
    refine ⟨fun n => by rw [hconfiguration]; exact h.names n, fun o ho => ?_, fun l hl => ?_,
      fun l hl => ?_⟩
    · -- The sessions that the calls build go to the new rules with their channels.
      obtain ⟨k, hk, rfl⟩ := List.mem_map.1 ho
      have hsilent := h.stored k hk
      by_cases hnode : k.node = node
      · rw [if_pos hnode]
        have hsame := System.updateToVersion_configuration (w.system k) version
        exact (hsilent.updateToVersion version).of_configuration
          ((hconfiguration k.node).trans hsame.symm)
      · rw [if_neg hnode]
        exact hsilent.of_configuration (hconfiguration k.node)
    · obtain ⟨k, hk, rfl⟩ := List.mem_map.1 hl
      rw [hconfiguration]
      split
      · exact (h.live k hk).migrate _
      · exact h.live k hk
    · obtain ⟨k, hk, rfl⟩ := List.mem_map.1 hl
      split <;> exact h.sent k hk

section Run

variable [Fact F]

variable [DecidableEq N]

/-- One step of the grid keeps the channels in order. -/
theorem Registered.step (h : w.Registered) {a : Action N F} (hs : (lts N E).step w a = some w') :
    w'.Registered := by
  cases a with
  | build node =>
    cases hs
    -- The new session has sent nothing, and has no engine session yet.
    refine h.setLive (l := { node := node }) (fun k hk => ?_) (fun s hs => ?_) (fun d hd => ?_)
    · exact (List.mem_append.1 hk).imp id List.mem_singleton.1
    · cases hs
    · cases hd
  | insert x fact =>
    simp only [lts, Option.bind_eq_some_iff] at hs
    obtain ⟨l, hl, hs⟩ := hs
    split at hs
    · cases hs
      have hmem := List.mem_of_getElem? hl
      exact h.setLive (fun k hk => List.mem_or_eq_of_mem_set hk) (h.live l hmem) (h.sent l hmem)
    · cases hs
  | statement x =>
    -- A statement of an insert, on the live session that it is about.
    simp only [lts, Option.bind_eq_some_iff, Option.map_eq_some_iff] at hs
    obtain ⟨l, hl, l', hstep, rfl⟩ := hs
    have hmem := List.mem_of_getElem? hl
    obtain ⟨hnode, hlive, hsent⟩ := LiveSession.step_isLive hstep (h.live l hmem) (h.sent l hmem)
    refine h.setLive (fun k hk => List.mem_or_eq_of_mem_set hk) ?_ hsent
    rw [hnode]
    exact hlive
  | receive node object =>
    cases hs
    -- No call has begun on what a node receives.
    refine h.setStored (o := ⟨node, { shared := { object := object } }⟩) (fun k hk => ?_) ?_
    · exact (List.mem_append.1 hk).imp id List.mem_singleton.1
    · exact ⟨fun d hd => (nomatch hd), fun t ht => (nomatch ht)⟩
  | call x job =>
    -- Calls and their steps are those of the system of the session: `Silent` is about them.
    simp only [lts, Option.bind_eq_some_iff, Option.map_eq_some_iff] at hs
    obtain ⟨o, ho, s, hcall, rfl⟩ := hs
    have hsilent := (h.stored o (List.mem_of_getElem? ho)).call hcall
    refine h.setStored (fun k hk => List.mem_or_eq_of_mem_set hk) ?_
    exact hsilent.of_configuration (System.call_configuration hcall).symm
  | step x i =>
    simp only [lts, Option.bind_eq_some_iff, Option.map_eq_some_iff] at hs
    obtain ⟨o, ho, s, hstep, rfl⟩ := hs
    have hsilent := (h.stored o (List.mem_of_getElem? ho)).step (h.names o.node) hstep
    refine h.setStored (fun k hk => List.mem_or_eq_of_mem_set hk) ?_
    exact hsilent.of_configuration (System.step_configuration hstep).symm
  | handOver x i =>
    simp only [lts, Option.bind_eq_some_iff] at hs
    obtain ⟨o, ho, t, ht, hs⟩ := hs
    have hsilent := h.stored o (List.mem_of_getElem? ho)
    split at hs
    · rename_i work hpc
      cases hs
      -- The session that the call has built goes on as a live one.
      obtain ⟨hchannels, hreturned⟩ := hsilent.handOver ht hpc
      have hstored : (w.setStored x o ⟨w.rules o.node,
          o.pool.set i o.pool.shared { t with pc := .returned }⟩).Registered :=
        h.setStored (fun k hk => List.mem_or_eq_of_mem_set hk) hreturned
      refine hstored.setLive (l := { node := o.node, session := { session := some work.session } })
        (fun k hk => ?_) (fun s hs => ?_) (fun d hd => ?_)
      · exact (List.mem_append.1 hk).imp id List.mem_singleton.1
      · cases hs
        exact hchannels
      · cases hd
    · cases hs
  | updateToVersion node version =>
    cases hs
    exact h.updateToVersion node version

/-- In every state that a run of the grid reaches, whatever the order of the inserts, the calls on
serialized sessions, the merges, the transfers, the rebuilds and the rules changes, replay is silent
and live sessions are not. -/
theorem replay_silent {rules : N → RulesManager}
    (hnames : ∀ n, (rules n).rulesConfiguration.SameNames) {actions : List (Action N F)}
    (h : (lts N E).exec (start rules) actions = some w) : w.Silent :=
  ((lts N E).exec_invariant Registered (fun _ _ _ hi hs => hi.step hs) (registered_start hnames)
    h).silent

end Run

/-- A reading in a live session on one node, and the same reading in a serialized session on the
other node, which is rebuilt after a rules change and then takes a second reading. -/
def rebuildThenInsert : List (Action Bool Reading) :=
  .build false :: wholeInsert 0 ⟨1⟩ ++
    .receive true { version := jstr "1" } :: callSteps 0 (.add ⟨1⟩) 0 4 ++
    .updateToVersion true (jstr "2") :: callSteps 0 .rebuild 1 13 ++
    .handOver 0 1 :: wholeInsert 1 ⟨2⟩

/-- The replay is silent, and each of the two inserts is not. -/
theorem replay_silent_rebuildThenInsert :
    ∃ w : World Bool Recorder.engine,
      (lts _ _).exec (start fun _ => Recorder.manager (jstr "1")) rebuildThenInsert = some w ∧
      w.Silent ∧ w.stored.map (fun o => o.pool.shared.sent.map (·.channel)) = [[.replay 1]] ∧
      w.live.map (fun l => l.sent.map (·.channel)) = [[.real 0], [.real 0]] := by
  have hrun : ((lts _ Recorder.engine).exec (start fun _ => Recorder.manager (jstr "1"))
      rebuildThenInsert).any fun w => decide (
        w.stored.map (fun o => o.pool.shared.sent.map (·.channel)) = [[.replay 1]] ∧
        w.live.map (fun l => l.sent.map (·.channel)) = [[.real 0], [.real 0]]) := by
    decide +kernel
  obtain ⟨w, hw, hsent⟩ := (Option.any_eq_true _ _).1 hrun
  exact ⟨w, hw, replay_silent (fun _ _ => Iff.rfl) hw, of_decide_eq_true hsent⟩

end World

end Hacep
