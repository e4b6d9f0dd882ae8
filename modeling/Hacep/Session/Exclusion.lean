import Hacep.Lib.Simulation
import Hacep.Recorder
import Hacep.Session.Threads

/-!
# No fact is lost between the threads

A call that upgrades, saves or rebuilds a serialized session reads the stored bytes, takes the facts
out of the buffer one by one and, unless it is a rebuild, stores the bytes again. Between the first
and the last of these the facts are in a session that only the thread has (`Statement.drained`).

`lost_nothing` says that no fact is lost in a run in which a thread reads the stored bytes only
while no other thread holds such a session (`Undisturbed`): at every moment the facts in the stored
bytes, then those that a thread has drained, then those in the buffer are the facts that were added,
and a rebuild returns them as they were when it had drained its last. The code does not see to it:
`add` upgrades without looking at `saving`, and then a snapshot that is running overwrites what the
upgrade has stored (`upgradeDuringSnapshot_loses`).

The proof carries an invariant with three parts: at most one thread holds a session, the facts add
up, and each session that is being built has the stored facts and those drained for it.
-/

namespace Hacep

open Java

variable {F : Type} {E : KieEngine F}

/-- The facts that a thread has taken out of the buffer and not stored. -/
def Statement.drained (pc : Statement E) : List F := (pc.work.map Work.drained).getD []

/-- The thread builds a session. -/
def Statement.building : Statement E → Bool
  | .replay _ _ | .fire _ | .update _ | .store _ => true
  | _ => false

/-- The thread holds facts, or bytes to put facts to: it builds a session, or it has handed out one
with facts that were in the buffer. -/
def Statement.holds (pc : Statement E) : Bool := pc.building || !pc.drained.isEmpty

/-- The session that the thread has will get no more facts. -/
def Statement.complete : Statement E → Bool
  | .fire _ | .update _ | .store _ | .rebuilt _ => true
  | _ => false

/-- The statement takes a fact out of the buffer, where there is one. -/
def Statement.removes : Statement E → Bool
  | .replay _ true => true
  | _ => false

/-- The statement reads the stored bytes. -/
def Statement.readsBytes : Statement E → Bool
  | .deserialize _ | .build => true
  | _ => false

/-- The action's statement returns. -/
def System.Returns [Fact F] (s : System E) : System.Action F → Bool
  | .step i => (s.pool.threads[i]?).all fun t => t.returns s.rules s.pool.shared
  | .call _ | .updateToVersion _ => true

/-- The action does not read the stored bytes while another thread holds a session. -/
def System.Exclusive (s : System E) : System.Action F → Bool
  | .step i => (s.pool.threads[i]?).all fun t =>
    !t.pc.readsBytes || (s.pool.threads.eraseIdx i).all fun u => !u.pc.holds
  | .call _ | .updateToVersion _ => true

/-- The action returns, and no thread reads the stored bytes while another holds a session. -/
def System.Undisturbed [Fact F] (s : System E) (a : System.Action F) : Bool :=
  s.Returns a && s.Exclusive a

/-- The fact that an action takes out of the buffer. -/
def System.drains (s : System E) : System.Action F → List F
  | .step i => (s.pool.threads[i]?).elim [] fun t =>
    if t.pc.removes then s.pool.shared.object.buffer.take 1 else []
  | .call _ | .updateToVersion _ => []

/-- The facts that threads have drained, in the order of the threads. -/
def System.inFlight (s : System E) : List F := s.pool.gather fun t => t.pc.drained

/-! ## What a statement does to the facts -/

section Effect

variable {H : FactHistory E}

@[simp]
theorem Job.afterReplay_work (job : Job F) (work : Work E) :
    (job.afterReplay work).work = some work := by
  unfold Job.afterReplay
  cases work.own <;> cases job <;> rfl

theorem Job.afterUpgrade_work (job : Job F) : (job.afterUpgrade : Statement E).work = none := by
  cases job <;> rfl

/-- Without a session there is nothing to build and nothing to hand out. -/
theorem Statement.of_work_eq_none {pc : Statement E} (h : pc.work = none) :
    pc.building = false ∧ pc.complete = false ∧ pc.drained = [] := by
  have hdrained : pc.drained = [] := by rw [Statement.drained, h]; rfl
  cases pc with
  | replay | fire | update | store | rebuilt => cases h
  | _ => exact ⟨rfl, rfl, hdrained⟩

variable [Fact F] {rm : RulesManager} {job : Job F} {s s' : Shared E} {pc pc' : Statement E}
  {out : List (Delivery E.Message)}

/-- What a statement of a thread without a session does: it may add a fact, or start to build a
session from the stored bytes. -/
structure Statement.Idle (H : FactHistory E) (s s' : Shared E) (pc pc' : Statement E) : Prop where
  /-- The stored bytes stay. -/
  session : s'.object.session = s.object.session
  /-- What is added goes to the buffer. -/
  added : ∃ facts, s'.object.buffer = s.object.buffer ++ facts ∧ s'.added = s.added ++ facts
  /-- Nothing has been drained. -/
  drained : pc.drained = [] ∧ pc'.drained = []
  /-- No session is complete. -/
  complete : pc'.complete = false
  /-- A session that is now being built has the stored facts. -/
  building : pc'.building = true → pc.readsBytes = true ∧
    ∀ work, pc'.work = some work → H.history work.session.state = H.stored s.object.session

omit [Fact F] in
/-- A statement that has nothing to do with a session. -/
theorem Statement.Idle.of_work (hpc : pc.work = none) (hpc' : pc'.work = none)
    (hsession : s'.object.session = s.object.session)
    (hadded : ∃ facts, s'.object.buffer = s.object.buffer ++ facts ∧ s'.added = s.added ++ facts) :
    Statement.Idle H s s' pc pc' := by
  obtain ⟨-, -, hdrained⟩ := Statement.of_work_eq_none hpc
  obtain ⟨hbuilding', hcomplete', hdrained'⟩ := Statement.of_work_eq_none hpc'
  refine ⟨hsession, hadded, ⟨hdrained, hdrained'⟩, hcomplete', fun h => ?_⟩
  rw [hbuilding'] at h
  cases h

/-- A thread that does not build a session is idle. -/
theorem Statement.Runs.idle (h : Statement.Runs rm job s pc pc' s' out)
    (hpc : pc.building = false) : Statement.Idle H s s' pc pc' := by
  have hsame : ∃ facts, s.object.buffer = s.object.buffer ++ facts ∧ s.added = s.added ++ facts :=
    ⟨[], by simp⟩
  cases h with
  | waitForSnapshot =>
    exact .of_work rfl (by cases s.object.saving <;> rfl) rfl hsame
  | check needed hneeded =>
    exact .of_work rfl (by cases needed <;> first | rfl | exact job.afterUpgrade_work) rfl hsame
  | deserialize container session hsession =>
    refine ⟨rfl, hsame, ⟨rfl, rfl⟩, rfl, fun _ => ⟨rfl, fun work hwork => ?_⟩⟩
    cases hwork
    exact (RulesManager.deserializeOrCreate_ok H hsession).1
  | build container session hcontainer hsession =>
    refine ⟨rfl, hsame, ⟨rfl, rfl⟩, rfl, fun _ => ⟨rfl, fun work hwork => ?_⟩⟩
    cases hwork
    exact (RulesManager.deserializeOrCreate_ok H hsession).1
  | setVersion r hr => exact .of_work rfl job.afterUpgrade_work rfl hsame
  | offer fact => exact .of_work rfl rfl rfl ⟨[fact], rfl, rfl⟩
  | needToSave =>
    exact .of_work rfl (by cases s.object.needToSave rm <;> rfl) rfl hsame
  | compareAndSet =>
    exact .of_work rfl (by cases s.object.saving <;> rfl) rfl hsame
  | nothing | begin | remove | done | fire | update | store => cases hpc
  | _ => exact .of_work rfl rfl rfl hsame

/-- What a statement of a thread that builds a session does, and does not store it. -/
structure Statement.Builds (H : FactHistory E) (s s' : Shared E) (pc pc' : Statement E)
    (work work' : Work E) : Prop where
  /-- The session stays with the thread. -/
  holds : pc'.work = some work'
  /-- The stored bytes stay. -/
  session : s'.object.session = s.object.session
  /-- Facts go from the front of the buffer to the end of what is drained. -/
  drained : work'.drained ++ s'.object.buffer = work.drained ++ s.object.buffer
  /-- The session gets the facts that are drained. -/
  history : ∃ facts, work'.drained = work.drained ++ facts ∧
    H.history work'.session.state = H.history work.session.state ++ facts
  /-- The session is complete when the buffer is empty, and then gets no more facts. -/
  complete : pc'.complete = true → s.object.buffer = [] ∨
    pc.complete = true ∧ H.history work'.session.state = H.history work.session.state

/-- What the statement that stores the session does. -/
structure Statement.Stores (H : FactHistory E) (s s' : Shared E) (pc' : Statement E)
    (work : Work E) : Prop where
  /-- The thread has no session any more. -/
  holds : pc'.work = none
  /-- The buffer stays. -/
  buffer : s'.object.buffer = s.object.buffer
  /-- The bytes hold the session's facts. -/
  stored : H.stored s'.object.session = H.history work.session.state

/-- A thread that builds a session moves facts from the buffer to it, or stores it. -/
theorem Statement.Runs.building (h : Statement.Runs rm job s pc pc' s' out)
    (hpc : pc.building = true) :
    ∃ work, pc.work = some work ∧ s'.added = s.added ∧
      ((∃ work', Statement.Builds H s s' pc pc' work work') ∨ Statement.Stores H s s' pc' work) := by
  cases h with
  | nothing work hbuffer =>
    refine ⟨work, rfl, rfl, .inl ⟨_, job.afterReplay_work _, rfl, rfl, ⟨[], by simp, ?_⟩, ?_⟩⟩
    · rw [RulesManager.registerChannels_state, List.append_nil]
    · exact fun _ => .inl hbuffer
  | begin work hbuffer =>
    refine ⟨work, rfl, rfl, .inl ⟨_, rfl, rfl, rfl, ⟨[], by simp, ?_⟩, fun h => by cases h⟩⟩
    rw [RulesManager.registerReplayChannels_state, List.append_nil]
  | remove work fact rest advanced inserted hbuffer hadvance hinsert =>
    obtain ⟨⟨d, rfl⟩, -⟩ := KieSessionUtils.advanceClock_ok hadvance
    obtain ⟨hnone, rfl, -⟩ := KieSession.insert_ok hinsert
    refine ⟨work, rfl, rfl, .inl ⟨_, rfl, rfl, ?_, ⟨[fact], rfl, ?_⟩, fun h => by cases h⟩⟩
    · rw [hbuffer]
      exact List.append_assoc _ _ _
    · rw [H.insert _ _ hnone, H.advanceTime]
  | done work hbuffer =>
    exact ⟨work, rfl, rfl, .inl ⟨work, rfl, rfl, rfl, ⟨[], by simp, by simp⟩, fun _ => .inl hbuffer⟩⟩
  | fire work fired out hfire =>
    obtain ⟨rfl, -⟩ := KieSession.fireAllRules_ok hfire
    have hstate : H.history (rm.registerChannels (E := E)
        ⟨(E.fireAllRules work.session.state).state, work.session.channels⟩).state =
        H.history work.session.state := by
      rw [RulesManager.registerChannels_state, H.fireAllRules]
    refine ⟨work, rfl, rfl, .inl ⟨_, job.afterReplay_work _, rfl, rfl, ⟨[], by simp, ?_⟩, ?_⟩⟩
    · rw [hstate, List.append_nil]
    · exact fun _ => .inr ⟨rfl, hstate⟩
  | update work target container session htarget hupdate =>
    have hstate : H.history session.state = H.history work.session.state :=
      HAKieSerializedSession.updateToVersion_ok hupdate
    refine ⟨work, rfl, rfl, .inl ⟨_, rfl, rfl, rfl, ⟨[], by simp, ?_⟩, ?_⟩⟩
    · rw [hstate, List.append_nil]
    · exact fun _ => .inr ⟨rfl, hstate⟩
  | store work container bytes hcontainer hbytes =>
    refine ⟨work, rfl, rfl, .inr ⟨by cases work.own <;> rfl, rfl, ?_⟩⟩
    exact RulesManager.serialize_ok H hbytes
  | _ => cases hpc

/-- A statement that returns adds facts at the end of the buffer, or takes one from its front. -/
theorem Statement.Runs.buffer (h : Statement.Runs rm job s pc pc' s' out) :
    ∃ facts, s'.added = s.added ++ facts ∧ s.object.buffer ++ facts =
      (if pc.removes then s.object.buffer.take 1 else []) ++ s'.object.buffer := by
  cases h with
  | offer fact => exact ⟨[fact], rfl, rfl⟩
  | remove work fact rest advanced inserted hbuffer =>
    refine ⟨[], (List.append_nil _).symm, ?_⟩
    rw [hbuffer, List.append_nil]
    rfl
  | done work hbuffer =>
    refine ⟨[], (List.append_nil _).symm, ?_⟩
    rw [hbuffer]
    exact hbuffer.symm
  | _ => exact ⟨[], (List.append_nil _).symm, List.append_nil _⟩

end Effect

section Migrate

variable {H : FactHistory E}

@[simp]
theorem Work.migrate_drained (target : ReleaseId) (work : Work E) :
    (work.migrate target).drained = work.drained := by
  unfold Work.migrate
  split <;> rfl

/-- A change of the node's rules keeps the facts of the sessions. -/
@[simp]
theorem Work.migrate_history (target : ReleaseId) (work : Work E) :
    H.history (work.migrate target).session.state = H.history work.session.state := by
  unfold Work.migrate
  split
  · rfl
  · exact H.migrate _ _

theorem Statement.mapWork_work (g : Work E → Work E) (pc : Statement E) :
    (pc.mapWork g).work = pc.work.map g := by
  cases pc <;> rfl

theorem Statement.mapWork_building (g : Work E → Work E) (pc : Statement E) :
    (pc.mapWork g).building = pc.building := by
  cases pc <;> rfl

theorem Statement.mapWork_complete (g : Work E → Work E) (pc : Statement E) :
    (pc.mapWork g).complete = pc.complete := by
  cases pc <;> rfl

theorem Statement.mapWork_drained (target : ReleaseId) (pc : Statement E) :
    (pc.mapWork (·.migrate target)).drained = pc.drained := by
  have hdrained : Work.drained ∘ (Work.migrate (E := E) target) = Work.drained :=
    funext fun work => Work.migrate_drained target work
  rw [Statement.drained, Statement.mapWork_work, Option.map_map, hdrained]
  rfl

end Migrate

/-! ## The invariant -/

/-- What holds of every thread. `initial` are the facts that the session had at the start. -/
structure Thread.Ok (H : FactHistory E) (initial : List F) (s : Shared E) (t : Thread E) : Prop where
  /-- What was added before the call began is still what was added first. -/
  before : t.before <+: s.added
  /-- A session that is being built has the stored facts and those drained for it. -/
  building : ∀ work, t.pc.work = some work → t.pc.building = true →
    H.history work.session.state = H.stored s.object.session ++ work.drained
  /-- A complete session has the facts up to some moment after the call began. -/
  complete : ∀ work, t.pc.work = some work → t.pc.complete = true →
    initial ++ t.before <+: H.history work.session.state ∧
      H.history work.session.state <+: initial ++ s.added

variable {H : FactHistory E} {initial : List F}

/-- What other threads add and drain leaves what holds of a thread. -/
theorem Thread.Ok.of_added {s s' : Shared E} {t : Thread E} (h : t.Ok H initial s)
    (hadded : ∃ facts, s'.added = s.added ++ facts)
    (hsession : t.pc.building = true → s'.object.session = s.object.session) :
    t.Ok H initial s' := by
  obtain ⟨facts, hadded⟩ := hadded
  refine ⟨?_, fun work hwork hb => ?_, fun work hwork hc => ?_⟩
  · rw [hadded]
    exact h.before.trans (List.prefix_append _ _)
  · rw [hsession hb]
    exact h.building work hwork hb
  · obtain ⟨hbefore, hafter⟩ := h.complete work hwork hc
    refine ⟨hbefore, hafter.trans ?_⟩
    rw [hadded, ← List.append_assoc]
    exact List.prefix_append _ _

/-- What holds of a thread that goes on to build its session, where nothing else is drained. -/
theorem Thread.Ok.of_builds {s s' : Shared E} {t : Thread E} {pc : Statement E} {work work' : Work E}
    (h : t.Ok H initial s) (hwork : t.pc.work = some work) (hb : t.pc.building = true)
    (hexact : H.stored s.object.session ++ work.drained ++ s.object.buffer = initial ++ s.added)
    (hadded : s'.added = s.added) (hbuilds : Statement.Builds H s s' t.pc pc work work') :
    Thread.Ok H initial s' { t with pc := pc } := by
  have hhistory := h.building work hwork hb
  obtain ⟨facts, hfacts, hhistory'⟩ := hbuilds.history
  rw [hhistory] at hhistory'
  refine ⟨by rw [hadded]; exact h.before, fun w hw _ => ?_, fun w hw hc => ?_⟩
  · cases hbuilds.holds.symm.trans hw
    rw [hhistory', hfacts, hbuilds.session, List.append_assoc]
  · cases hbuilds.holds.symm.trans hw
    rcases hbuilds.complete hc with hnil | ⟨hc, hsame⟩
    · -- The buffer is empty: the session has all the facts that were added so far.
      have hmoved := hbuilds.drained
      rw [hnil, hfacts, List.append_nil, List.append_assoc] at hmoved
      have hnone : facts = [] := (List.append_eq_nil_iff.1 (List.append_right_eq_self.1 hmoved)).1
      rw [hnil, List.append_nil] at hexact
      rw [hhistory', hnone, List.append_nil, hexact, hadded]
      exact ⟨(List.prefix_append_right_inj _).2 h.before, List.prefix_rfl⟩
    · rw [hsame, hadded]
      exact h.complete work hwork hc

/-- What holds of a thread that has stored its session. -/
theorem Thread.Ok.of_stores {s s' : Shared E} {t : Thread E} {pc : Statement E} {work : Work E}
    (h : t.Ok H initial s) (hadded : s'.added = s.added)
    (hstores : Statement.Stores H s s' pc work) :
    Thread.Ok H initial s' { t with pc := pc } := by
  refine ⟨by rw [hadded]; exact h.before, fun w hw _ => ?_, fun w hw _ => ?_⟩
  · cases hstores.holds.symm.trans hw
  · cases hstores.holds.symm.trans hw

namespace System

/-- The invariant of a run in which no thread disturbs another. -/
structure Inv (H : FactHistory E) (initial : List F) (s : System E) : Prop where
  /-- At most one thread holds a session. -/
  exclusive : s.pool.Exclusive fun t => t.pc.holds = true
  /-- The facts add up. -/
  exact : H.stored s.pool.shared.object.session ++ s.inFlight ++ s.pool.shared.object.buffer =
    initial ++ s.pool.shared.added
  /-- What holds of every thread. -/
  threads : ∀ t ∈ s.pool.threads, t.Ok H initial s.pool.shared

/-- Where one thread holds a session, what it has drained is all that is drained. -/
theorem inFlight_of_alone {p : Pool (Shared E) (Thread E)} {i : ℕ} {t : Thread E}
    (ht : p.threads[i]? = some t) (halone : p.Alone (fun t => t.pc.holds = true) i) :
    (p.gather fun t => t.pc.drained) = t.pc.drained := by
  refine Pool.gather_of_alone ht fun j u hj hu => ?_
  have hno := halone j u hj hu
  simp only [Statement.holds, Bool.or_eq_true, not_or, Bool.not_eq_true, Bool.not_eq_false',
    List.isEmpty_iff] at hno
  exact hno.2

variable {s s' : System E}

/-- A step of a thread that does not build a session keeps the invariant. -/
theorem Inv.step_idle (hi : s.Inv H initial) {i : ℕ} {t : Thread E} {pc : Statement E}
    {shared : Shared E} (ht : s.pool.threads[i]? = some t)
    (hidle : Statement.Idle H s.pool.shared shared t.pc pc)
    (hread : t.pc.readsBytes = true → s.pool.Alone (fun t => t.pc.holds = true) i) :
    Inv H initial { s with pool := s.pool.set i shared { t with pc := pc } } := by
  obtain ⟨facts, hbuffer, hadded⟩ := hidle.added
  have hmem := Pool.mem_of_getElem? ht
  refine ⟨hi.exclusive.step ht fun hholds => .inr ?_, ?_, fun u hu => ?_⟩
  · -- The thread now builds a session, so it has read the stored bytes.
    have hbuilding : pc.building = true := by
      simpa [Statement.holds, hidle.drained.2] using hholds
    exact hread (hidle.building hbuilding).1
  · have hgather : (s.pool.set i shared { t with pc := pc }).gather (fun t => t.pc.drained) =
        s.pool.gather fun t => t.pc.drained :=
      Pool.gather_set_of_eq ht (hidle.drained.2.trans hidle.drained.1.symm)
    show H.stored shared.object.session ++ _ ++ shared.object.buffer = initial ++ shared.added
    rw [hidle.session, hbuffer, hadded, inFlight, hgather, ← List.append_assoc _ _ facts,
      ← List.append_assoc _ _ facts]
    exact congrArg (· ++ facts) hi.exact
  · rcases Pool.mem_set ht hu with rfl | ⟨j, -, hj⟩
    · have hbefore := ((hi.threads t hmem).of_added ⟨facts, hadded⟩ fun _ => hidle.session).before
      refine ⟨hbefore, fun work hwork hb => ?_, fun work hwork hc => ?_⟩
      · have hstart := (hidle.building hb).2 work hwork
        have hnil : work.drained = [] := by
          have := hidle.drained.2
          rwa [Statement.drained, show pc.work = some work from hwork] at this
        show _ = H.stored shared.object.session ++ work.drained
        rw [hidle.session, hstart, hnil, List.append_nil]
      · cases hidle.complete.symm.trans hc
    · exact (hi.threads u (Pool.mem_of_getElem? hj)).of_added ⟨facts, hadded⟩ fun _ => hidle.session

/-- A step of a thread that builds a session keeps the invariant. -/
theorem Inv.step_building (hi : s.Inv H initial) {i : ℕ} {t : Thread E} {pc : Statement E}
    {shared : Shared E} {work : Work E} (ht : s.pool.threads[i]? = some t)
    (hb : t.pc.building = true) (hwork : t.pc.work = some work)
    (hadded : shared.added = s.pool.shared.added)
    (h : (∃ work', Statement.Builds H s.pool.shared shared t.pc pc work work') ∨
      Statement.Stores H s.pool.shared shared pc work) :
    Inv H initial { s with pool := s.pool.set i shared { t with pc := pc } } := by
  have hholds : t.pc.holds = true := by simp [Statement.holds, hb]
  have halone := hi.exclusive i t ht hholds
  have hok := hi.threads t (Pool.mem_of_getElem? ht)
  have hhistory := hok.building work hwork hb
  -- What is in flight is what this thread has drained, before the step and after it.
  have hdrained : t.pc.drained = work.drained := by rw [Statement.drained, hwork]; rfl
  have hexact : H.stored s.pool.shared.object.session ++ work.drained ++
      s.pool.shared.object.buffer = initial ++ s.pool.shared.added := by
    have hbefore := inFlight_of_alone ht halone
    have hexact := hi.exact
    rwa [inFlight, hbefore, hdrained] at hexact
  have hafter : (s.pool.set i shared { t with pc := pc }).gather (fun t => t.pc.drained) =
      pc.drained :=
    inFlight_of_alone (t := { t with pc := pc }) (Pool.getElem?_set_self ht) (halone.set ht)
  refine ⟨hi.exclusive.step ht fun _ => .inl hholds, ?_, fun u hu => ?_⟩
  · show H.stored shared.object.session ++ Pool.gather _ _ ++ shared.object.buffer =
      initial ++ shared.added
    rw [hafter, hadded, ← hexact]
    rcases h with ⟨work', hbuilds⟩ | hstores
    · have hdrained' : pc.drained = work'.drained := by rw [Statement.drained, hbuilds.holds]; rfl
      rw [hdrained', hbuilds.session, List.append_assoc, hbuilds.drained, List.append_assoc]
    · have hdrained' : pc.drained = [] := (Statement.of_work_eq_none hstores.holds).2.2
      rw [hdrained', hstores.buffer, hstores.stored, hhistory, List.append_nil]
  · rcases Pool.mem_set ht hu with rfl | ⟨j, hj, hu⟩
    · rcases h with ⟨work', hbuilds⟩ | hstores
      · exact hok.of_builds hwork hb hexact hadded hbuilds
      · exact hok.of_stores hadded hstores
    · -- No other thread builds a session, so a change of the stored bytes is nothing to it.
      have hok := hi.threads u (Pool.mem_of_getElem? hu)
      refine hok.of_added ⟨[], by simp [hadded]⟩ fun h => ?_
      have hno := halone j u hj hu
      simp [Statement.holds, h] at hno

/-- A change of the node's rules keeps the invariant. -/
theorem Inv.migrate (hi : s.Inv H initial) (rules : RulesManager) (target : ReleaseId) :
    Inv H initial
      ⟨rules, s.pool.map fun t => { t with pc := t.pc.mapWork (·.migrate target) }⟩ := by
  refine ⟨hi.exclusive.map fun t ht => ?_, ?_, fun t ht => ?_⟩
  · rwa [Statement.holds, Statement.mapWork_drained, Statement.mapWork_building] at ht
  · have hgather := Pool.gather_map (p := s.pool) (f := fun t => t.pc.drained)
      (g := fun t => { t with pc := t.pc.mapWork (·.migrate target) })
      fun t => t.pc.mapWork_drained target
    rw [inFlight, hgather]
    exact hi.exact
  · obtain ⟨u, hu, rfl⟩ := List.mem_map.1 ht
    have hok := hi.threads u hu
    refine ⟨hok.before, fun work hwork hb => ?_, fun work hwork hc => ?_⟩
    · rw [Statement.mapWork_work, Option.map_eq_some_iff] at hwork
      obtain ⟨work, hwork, rfl⟩ := hwork
      rw [Work.migrate_history, Work.migrate_drained]
      exact hok.building work hwork (by rwa [Statement.mapWork_building] at hb)
    · rw [Statement.mapWork_work, Option.map_eq_some_iff] at hwork
      obtain ⟨work, hwork, rfl⟩ := hwork
      rw [Work.migrate_history]
      exact hok.complete work hwork (by rwa [Statement.mapWork_complete] at hc)

variable [Fact F]

/-- An action that disturbs no thread keeps the invariant. -/
theorem Inv.step {a : Action F} (hi : s.Inv H initial) (hok : s.Undisturbed a = true)
    (h : (lts E).step s a = some s') : s'.Inv H initial := by
  cases a with
  | call job =>
    obtain ⟨queued, rfl⟩ := call_eq_some h
    -- The new thread has no session and no facts in flight.
    have hstart : (job.start : Statement E).work = none := by cases job <;> rfl
    obtain ⟨hbuilding, hcomplete, hdrained⟩ := Statement.of_work_eq_none hstart
    refine ⟨?_, ?_, fun t ht => ?_⟩
    · exact hi.exclusive.spawn (by simp [Statement.holds, hbuilding, hdrained])
    · have hexact := hi.exact
      simpa [inFlight, Pool.gather, Pool.spawn, hdrained] using hexact
    · rcases Pool.mem_spawn.1 ht with ht | rfl
      · exact (hi.threads t ht).of_added ⟨[], by simp⟩ fun _ => rfl
      · refine ⟨List.prefix_rfl, fun work hwork => ?_, fun work hwork => ?_⟩
        · cases hstart.symm.trans hwork
        · cases hstart.symm.trans hwork
  | step i =>
    obtain ⟨t, shared, t', ht, hstep, rfl⟩ := step_eq_some h
    simp only [Undisturbed, Returns, Exclusive, ht, Option.all_some, Bool.and_eq_true,
      Bool.or_eq_true, Bool.not_eq_true'] at hok
    obtain ⟨hreturns, hread⟩ := hok
    obtain ⟨pc, s₁, out, hruns, rfl, rfl⟩ := Thread.step_of_returns s.rules hreturns hstep
    cases hb : t.pc.building with
    | false =>
      -- A thread that begins to read the stored bytes must be the only one with a session.
      have hidle := hruns.idle (H := H) hb
      refine hi.step_idle ht ⟨hidle.session, hidle.added, hidle.drained, hidle.complete,
        hidle.building⟩ fun hreads => ?_
      rcases hread with hno | hothers
      · cases hno.symm.trans hreads
      · rw [Pool.alone_iff]
        simpa using hothers
    | true =>
      -- A thread that has a session moves a fact into it, or stores it.
      obtain ⟨work, hwork, hadded, hcase⟩ := hruns.building (H := H) hb
      refine hi.step_building ht hb hwork hadded ?_
      rcases hcase with ⟨work', hbuilds⟩ | hstores
      · exact .inl ⟨work', hbuilds.holds, hbuilds.session, hbuilds.drained, hbuilds.history,
          hbuilds.complete⟩
      · exact .inr ⟨hstores.holds, hstores.buffer, hstores.stored⟩
  | updateToVersion version =>
    cases h
    rcases s.updateToVersion_cases version with hsame | ⟨ok, rules, -, hs'⟩
    · rw [hsame]
      exact hi
    rw [hs']
    -- A container that stays where it is leaves its sessions as they are.
    cases ok with
    | false => exact ⟨hi.exclusive, hi.exact, hi.threads⟩
    | true => exact hi.migrate rules (rules.newReleaseId version)

/-- What a run adds goes to the end of the buffer, and what it drains comes from the front. -/
theorem exec_drains {actions : List (Action F)}
    (hundisturbed : (lts E).Guarded (fun s a => s.Undisturbed a = true) s actions)
    (h : (lts E).exec s actions = some s') :
    ∃ facts, s'.pool.shared.added = s.pool.shared.added ++ facts ∧
      s.pool.shared.object.buffer ++ facts =
        (lts E).trace drains s actions ++ s'.pool.shared.object.buffer := by
  induction actions generalizing s with
  | nil =>
    cases h
    exact ⟨[], (List.append_nil _).symm, List.append_nil _⟩
  | cons a actions ih =>
    obtain ⟨s₁, hs₁, hrest⟩ := (lts E).exec_cons_eq_some.1 h
    have hstep : ∃ facts, s₁.pool.shared.added = s.pool.shared.added ++ facts ∧
        s.pool.shared.object.buffer ++ facts = s.drains a ++ s₁.pool.shared.object.buffer := by
      cases a with
      | call job =>
        obtain ⟨queued, rfl⟩ := call_eq_some hs₁
        exact ⟨[], (List.append_nil _).symm, List.append_nil _⟩
      | step i =>
        obtain ⟨t, shared, t', ht, hs, rfl⟩ := step_eq_some hs₁
        have hok := hundisturbed.1
        simp only [Undisturbed, Returns, ht, Option.all_some, Bool.and_eq_true] at hok
        obtain ⟨pc, s₂, out, hruns, rfl, rfl⟩ := Thread.step_of_returns s.rules hok.1 hs
        simp only [drains, ht, Option.elim_some]
        exact hruns.buffer
      | updateToVersion version =>
        cases hs₁
        have hshared : (s.updateToVersion version).pool.shared = s.pool.shared := by
          rcases s.updateToVersion_cases version with hsame | ⟨ok, rules, -, hs'⟩
          · rw [hsame]
          · rw [hs']
            cases ok <;> rfl
        rw [hshared]
        exact ⟨[], (List.append_nil _).symm, List.append_nil _⟩
    obtain ⟨facts, hadded, hbuffer⟩ := hstep
    obtain ⟨more, hadded', hbuffer'⟩ := ih (hundisturbed.2 s₁ hs₁) hrest
    refine ⟨facts ++ more, by rw [hadded', hadded, List.append_assoc], ?_⟩
    rw [Lts.trace_cons _ hs₁, ← List.append_assoc, hbuffer, List.append_assoc, hbuffer',
      List.append_assoc]

/-- When a rebuild returns, its session has all facts but those in the buffer. -/
theorem Inv.returns {i : ℕ} {t : Thread E} {work : Work E} (hi : s.Inv H initial)
    (hok : s.Undisturbed (.step i) = true) (h : s.step i = some s')
    (ht : s'.pool.threads[i]? = some t) (hpc : t.pc = .rebuilt work) :
    H.history work.session.state ++ s'.pool.shared.object.buffer =
      initial ++ s'.pool.shared.added := by
  obtain ⟨t₀, shared, t', ht₀, hstep, rfl⟩ := step_eq_some h
  simp only [Undisturbed, Returns, ht₀, Option.all_some, Bool.and_eq_true] at hok
  obtain ⟨pc, s₁, out, hruns, rfl, rfl⟩ := Thread.step_of_returns s.rules hok.1 hstep
  cases (Pool.getElem?_set_self ht₀).symm.trans ht
  obtain rfl : pc = .rebuilt work := hpc
  cases hb : t₀.pc.building with
  | false => cases (hruns.idle (H := H) hb).complete
  | true =>
    obtain ⟨work₀, hwork, hadded, ⟨work', hbuilds⟩ | hstores⟩ := hruns.building (H := H) hb
    · cases hbuilds.holds
      obtain ⟨facts, hdrained, hhistory⟩ := hbuilds.history
      have hold := (hi.threads t₀ (Pool.mem_of_getElem? ht₀)).building work₀ hwork hb
      have hexact := hi.exact
      rw [inFlight, inFlight_of_alone ht₀ (hi.exclusive i t₀ ht₀ (by simp [Statement.holds, hb])),
        Statement.drained, hwork] at hexact
      have hbuffer : facts ++ s₁.object.buffer = s.pool.shared.object.buffer := by
        have hmoved := hbuilds.drained
        rwa [hdrained, List.append_assoc, List.append_cancel_left_eq] at hmoved
      show _ ++ s₁.object.buffer = initial ++ s₁.added
      rw [hhistory, hold, hadded, ← hexact, ← hbuffer]
      simp only [Option.map_some, Option.getD_some, List.append_assoc]
    · cases hstores.holds

/-- In a run in which no thread reads the stored bytes while another holds a session, no fact is
lost between them: at every moment the facts in the stored bytes, then those that are in flight,
then those in the buffer are the facts of the session at the start and those added since, in order.
A rebuild returns a session with the facts that were added before it was called and then some of
those added since, in order: when it returns, the buffer of the start, the facts added before the
call and these are all that has been drained. -/
theorem lost_nothing (H : FactHistory E) {rules : RulesManager} {object : HAKieSerializedSession F}
    {actions : List (Action F)}
    (hundisturbed : (lts E).Guarded (fun s a => s.Undisturbed a = true) (start rules object) actions)
    (h : (lts E).exec (start rules object) actions = some s) :
    H.stored s.pool.shared.object.session ++ s.inFlight ++ s.pool.shared.object.buffer =
        object.history H ++ s.pool.shared.added ∧
      ∀ t ∈ s.pool.threads, ∀ work, t.pc = .rebuilt work →
        ∃ late, H.history work.session.state = object.history H ++ t.before ++ late ∧
          t.before ++ late <+: s.pool.shared.added ∧
          ∀ i, actions.getLast? = some (.step i) → s.pool.threads[i]? = some t →
            object.buffer ++ t.before ++ late =
              (lts E).trace drains (start rules object) actions := by
  have hstart : (start rules object : System E).Inv H (object.history H) := by
    refine ⟨(by intro i t ht; cases ht), ?_, (by intro t ht; cases ht)⟩
    simp [start, inFlight, Pool.gather, HAKieSerializedSession.history]
  have hinv := (lts E).exec_guarded_invariant (fun s a => s.Undisturbed a = true)
    (Inv H (object.history H)) (fun s a s' hi hok hs => hi.step hok hs) hstart hundisturbed h
  refine ⟨hinv.exact, fun t ht work hpc => ?_⟩
  obtain ⟨⟨late, hlate⟩, hadded⟩ := (hinv.threads t ht).complete work (by rw [hpc]; rfl) (by rw [hpc]; rfl)
  rw [← hlate, List.append_assoc, List.prefix_append_right_inj] at hadded
  refine ⟨late, hlate.symm, hadded, fun i hlast hi => ?_⟩
  obtain ⟨earlier, rfl⟩ := List.getLast?_eq_some_iff.1 hlast
  -- The invariant before the last step says what the session has when the rebuild returns.
  have hsteps := h
  rw [Lts.exec_append, Option.bind_eq_some_iff] at hsteps
  obtain ⟨s₁, hearlier, hsteps⟩ := hsteps
  obtain ⟨s₂, hlaststep, hs₂⟩ := (lts E).exec_cons_eq_some.1 hsteps
  cases hs₂
  obtain ⟨hundisturbed₁, hok⟩ := ((lts E).guarded_append hearlier).1 hundisturbed
  have hinv₁ := (lts E).exec_guarded_invariant (fun s a => s.Undisturbed a = true)
    (Inv H (object.history H)) (fun s a s' hi hok hs => hi.step hok hs) hstart hundisturbed₁ hearlier
  have hreturns := hinv₁.returns hok.1 hlaststep hi hpc
  obtain ⟨facts, hfacts, hbuffer⟩ := exec_drains hundisturbed h
  rw [← hlate, List.append_assoc, List.append_assoc, List.append_cancel_left_eq] at hreturns
  have hnew : facts = t.before ++ (late ++ s.pool.shared.object.buffer) := by
    rw [hreturns, hfacts]
    rfl
  rw [hnew, ← List.append_assoc, ← List.append_assoc] at hbuffer
  exact List.append_cancel_right hbuffer

/-- A node of the recording engine that saves a session with more than one buffered fact. -/
def savesTwo : RulesManager := { Recorder.manager (jstr "1") with gridBuffer := some 1 }

/-- Two readings, which a snapshot saves while a rebuild waits for it, and a third reading before
the rebuild reads the bytes. -/
def rebuildAfterSnapshot : List (Action Reading) :=
  [.call (.add ⟨1⟩)] ++ steps 0 4 ++ [.call (.add ⟨2⟩)] ++ steps 1 7 ++ [.call .rebuild] ++ steps 2 2 ++
    [.call .snapshot] ++ steps 3 10 ++ steps 2 2 ++ [.call (.add ⟨3⟩)] ++ steps 4 4 ++ steps 2 5

/-- Nothing is lost. -/
theorem lost_nothing_rebuildAfterSnapshot :
    ∃ s : System Recorder.engine,
      (lts _).exec (start savesTwo { version := jstr "1" }) rebuildAfterSnapshot = some s ∧
      Recorder.history.stored s.pool.shared.object.session ++ s.inFlight ++
        s.pool.shared.object.buffer = [⟨1⟩, ⟨2⟩, ⟨3⟩] := by
  have hrun : ((lts Recorder.engine).exec (start savesTwo { version := jstr "1" })
      rebuildAfterSnapshot).any fun s => decide (s.pool.shared.added = [⟨1⟩, ⟨2⟩, ⟨3⟩]) := by
    decide +kernel
  obtain ⟨s, hs, hadded⟩ := (Option.any_eq_true _ _).1 hrun
  have hexact := (lost_nothing Recorder.history (by decide +kernel) hs).1
  refine ⟨s, hs, hexact.trans ?_⟩
  rw [of_decide_eq_true hadded]
  rfl

/-- Two readings, and a snapshot that has drained the first when the rules change; the upgrade of
the next `add` then stores the second, and the snapshot ends. -/
def upgradeDuringSnapshot : List (Action Reading) :=
  [.call (.add ⟨1⟩)] ++ steps 0 4 ++ [.call (.add ⟨2⟩)] ++ steps 1 7 ++ [.call .snapshot] ++
    steps 2 4 ++ [.updateToVersion (jstr "2"), .call (.add ⟨3⟩)] ++ steps 3 13 ++ steps 2 6

/-- Every call has returned, and the second reading is gone. -/
theorem upgradeDuringSnapshot_loses :
    (lts Recorder.engine).Guarded (fun s a => s.Returns a = true)
        (start savesTwo { version := jstr "1" }) upgradeDuringSnapshot ∧
      ∃ s : System Recorder.engine,
        (lts _).exec (start savesTwo { version := jstr "1" }) upgradeDuringSnapshot = some s ∧
        s.pool.threads.length = 4 ∧ (s.pool.threads.all fun t => t.pc.isBlocked s.pool.shared) ∧
        Recorder.history.stored s.pool.shared.object.session = [⟨1⟩, ⟨3⟩] ∧ s.inFlight = [] ∧
        s.pool.shared.object.buffer = [] ∧ s.pool.shared.added = [⟨1⟩, ⟨2⟩, ⟨3⟩] := by
  have hrun : ((lts Recorder.engine).exec (start savesTwo { version := jstr "1" })
      upgradeDuringSnapshot).any fun s => decide (s.pool.threads.length = 4 ∧
        (s.pool.threads.all fun t => t.pc.isBlocked s.pool.shared) ∧
        Recorder.history.stored s.pool.shared.object.session = [⟨1⟩, ⟨3⟩] ∧ s.inFlight = [] ∧
        s.pool.shared.object.buffer = [] ∧ s.pool.shared.added = [⟨1⟩, ⟨2⟩, ⟨3⟩]) := by
    decide +kernel
  obtain ⟨s, hs, h⟩ := (Option.any_eq_true _ _).1 hrun
  exact ⟨by decide +kernel, s, hs, of_decide_eq_true h⟩

end System

end Hacep
