import Hacep.Lib.Lts
import Hacep.Lib.Pool
import Hacep.Session.HAKieSerializedSession

/-!
# A serialized session and the threads that call it

The calls of `HAKieSerializedSession.lean` step by step. A thread is in a call, and `Statement` says
which step is next; the code takes no lock, so between any two steps of a thread the other threads,
and the rules of the node, may change what it has not read yet. `next` is the text of the calls: it
says for each step what it reads and writes and which step follows.

A step is one statement of the source, with two kinds of exceptions. In `replayFacts` each test of
the buffer is one step with what follows it, so a round of the loop takes a fact out of the buffer,
advances the clock and inserts the fact at once; the firing is one step with the channels. And
`RulesManager.updateToVersion` is one step of the node, in which the container and the release id of
the manager change together.

A statement of `replayFacts` and of the two ways to build a session works on a session that only the
thread refers to (`Work`). A task is handed to the executor by `createSnapshot` and runs as a call
of its own.

`Shared` also records, for the proofs, the facts that were added and which rules each of them met.
-/

namespace Hacep

open Java

variable {F : Type}

/-- A call on a serialized session; `snapshot` is the task that `createSnapshot` hands to the
executor. -/
inductive Job (F : Type)
  | add (fact : F)
  | createSnapshot
  | snapshot
  | rebuild
  deriving DecidableEq, Repr

/-- A session that one thread builds. `own` tells the container that an upgrade has made for itself
from the node's, and `drained` records the facts taken out of the buffer for it. -/
structure Work (E : KieEngine F) where
  own : Bool
  container : KieContainer
  session : KieSession E
  drained : List F := []

/-- The next statement of a thread. -/
inductive Statement (E : KieEngine F)
  /-- `saving.get()` in `waitForSnapshotToComplete`. -/
  | waitForSnapshot
  /-- The read of the field `latch`. -/
  | readLatch
  /-- `latch.await()`, on the latch that was read. -/
  | await (latch : ℕ)
  /-- `isUpgradeNeeded()`. -/
  | check
  /-- `newKieContainer(this.version)`. -/
  | newContainer
  /-- `deserializeOrCreate(kieContainer, this.session)`, for an upgrade. -/
  | deserialize (container : KieContainer)
  /-- `deserializeOrCreate(this.session)`, for a build. -/
  | build
  /-- `!buffer.isEmpty()`; `begun` tells the loop's from the one before it. -/
  | replay (work : Work E) (begun : Bool)
  /-- `fireAllRules()`, and the channels. -/
  | fire (work : Work E)
  /-- `kieContainer.updateToVersion(rulesManager.getReleaseId())`. -/
  | update (work : Work E)
  /-- `session = serialize(…)`. -/
  | store (work : Work E)
  /-- `this.version = …`. -/
  | setVersion
  /-- `buffer.offer(f)`. -/
  | offer (fact : F)
  /-- `size++`. -/
  | count
  /-- `needToSave()`. -/
  | needToSave
  /-- `saving.compareAndSet(false, true)`. -/
  | compareAndSet
  /-- `latch = new CountDownLatch(1)`. -/
  | newLatch
  /-- `executor.execute(…)`. -/
  | execute
  /-- `saving.set(false)`. -/
  | release
  /-- `latch.countDown()`, on the latch in use. -/
  | countDown
  /-- The call has returned. -/
  | returned
  /-- A rebuild has returned its session. -/
  | rebuilt (work : Work E)
  /-- The call has thrown. -/
  | thrown

/-- The fields of the session, its latches, and the tasks that wait in the executor. -/
structure Shared (E : KieEngine F) where
  object : HAKieSerializedSession F
  /-- Tells the latch in use from those before it; `object.latch` is its count. -/
  latch : ℕ := 0
  /-- The counts at which earlier latches were replaced. -/
  replaced : ℕ → ℕ := fun _ => 0
  /-- Tasks that have not begun. -/
  queued : ℕ := 0
  /-- Recorded: the facts added, in order. -/
  added : List F := []
  /-- Recorded: the version of the node's rules when each fact in the buffer was added. -/
  tags : List JString := []
  /-- Recorded: for each fact replayed, that version and the version of the rules that replayed it. -/
  replays : List (JString × JString) := []
  /-- Recorded: the version of the container that wrote the bytes. -/
  writer : Option JString := none
  /-- Recorded: what the calls have delivered. -/
  sent : List (Delivery E.Message) := []

/-- A thread in a call. `before` records the facts that had been added when the call began. -/
structure Thread (E : KieEngine F) where
  job : Job F
  pc : Statement E
  before : List F := []

/-- A call on the shared state. -/
abbrev SharedCall (E : KieEngine F) (α : Type) := Call E (Shared E) α

variable {E : KieEngine F}

/-- The first statement of a call. -/
def Job.start : Job F → Statement E
  | .add _ | .snapshot => .check
  | .createSnapshot => .compareAndSet
  | .rebuild => .waitForSnapshot

/-- What follows `if (isUpgradeNeeded()) { rebuildSessionAndUpgrade(); }`. -/
def Job.afterUpgrade : Job F → Statement E
  | .add fact => .offer fact
  | .createSnapshot => .returned
  | .snapshot | .rebuild => .build

/-- What follows `replayFacts`. -/
def Job.afterReplay (job : Job F) (work : Work E) : Statement E :=
  if work.own then .update work
  else match job with
    | .rebuild => .rebuilt work
    | _ => .store work

/-- Where an exception leads: the snapshot has a `finally`. -/
def Job.afterThrow : Job F → Statement E
  | .snapshot => .release
  | _ => .thrown

/-- The statement waits for a latch, or there is none. -/
def Statement.isBlocked (s : Shared E) : Statement E → Bool
  | .await latch => (if latch = s.latch then s.object.latch else s.replaced latch) != 0
  | .returned | .rebuilt _ | .thrown => true
  | _ => false

/-- A write to the fields of the session. -/
def Shared.setObject (s : Shared E) (f : HAKieSerializedSession F → HAKieSerializedSession F) :
    Shared E := { s with object := f s.object }

/-- `buffer.offer(f)`, while the node's rules have a version. -/
def Shared.offer (s : Shared E) (fact : F) (version : JString) : Shared E :=
  { s with
    object := { s.object with buffer := s.object.buffer ++ [fact] }
    added := s.added ++ [fact]
    tags := s.tags ++ [version] }

/-- `buffer.remove()`, for rules of a version; `rest` is what is left. -/
def Shared.remove (s : Shared E) (rest : List F) (version : JString) : Shared E :=
  { s with
    object := { s.object with buffer := rest }
    tags := s.tags.tail
    replays := s.replays ++ s.tags.head?.toList.map (·, version) }

/-- `session = …`, by a container of a version. -/
def Shared.store (s : Shared E) (bytes : JBytes) (version : JString) : Shared E :=
  { s with object := { s.object with session := some bytes }, writer := some version }

/-- `latch = new CountDownLatch(1)`. -/
def Shared.newLatch (s : Shared E) : Shared E :=
  { s with
    object := { s.object with latch := 1 }
    latch := s.latch + 1
    replaced := Function.update s.replaced s.latch s.object.latch }

/-- The version that the node's rules report. -/
def RulesManager.currentVersion (rm : RulesManager) : JString :=
  (rm.releaseId.map ReleaseId.version).getD []

/-- The session that the thread builds, or has handed out. -/
def Statement.work : Statement E → Option (Work E)
  | .replay work _ | .fire work | .update work | .store work | .rebuilt work => some work
  | _ => none

/-- A change of that session. -/
def Statement.mapWork (g : Work E → Work E) : Statement E → Statement E
  | .replay work begun => .replay (g work) begun
  | .fire work => .fire (g work)
  | .update work => .update (g work)
  | .store work => .store (g work)
  | .rebuilt work => .rebuilt (g work)
  | pc => pc

/-- What an update of the node's container makes of a session: an upgrade has its own container. -/
def Work.migrate (target : ReleaseId) (work : Work E) : Work E :=
  if work.own then work
  else { work with
    container := ⟨target⟩
    session := { work.session with state := E.migrate target work.session.state } }

/-- A serialized session on its node, and the calls on it. -/
structure System (E : KieEngine F) where
  rules : RulesManager
  pool : Pool (Shared E) (Thread E)

namespace System

/-- What happens to a system. -/
inductive Action (F : Type)
  | call (job : Job F)
  | step (thread : ℕ)
  | updateToVersion (version : JString)
  deriving DecidableEq, Repr

/-- A number of steps of a thread. -/
def steps (i n : ℕ) : List (Action F) := List.replicate n (.step i)

/-- A session without calls. Its bytes and its facts are taken to be of its version. -/
def start (rules : RulesManager) (object : HAKieSerializedSession F) : System E :=
  ⟨rules, { shared := {
    object := object
    tags := object.buffer.map fun _ => object.version
    writer := object.session.map fun _ => object.version } }⟩

/-- A new call; a snapshot is one that waits in the executor. -/
def call (s : System E) (job : Job F) : Option (System E) :=
  let shared := s.pool.shared
  let thread : Thread E := ⟨job, job.start, shared.added⟩
  match job with
  | .snapshot =>
    if shared.queued = 0 then none
    else some { s with
      pool := { s.pool.spawn thread with shared := { shared with queued := shared.queued - 1 } } }
  | _ => some { s with pool := s.pool.spawn thread }

/-- `RulesManager.updateToVersion` on the node: what it makes of the sessions of its container. -/
def migrate (s : System E) (target : ReleaseId) : System E :=
  { s with pool := s.pool.map fun t => { t with pc := t.pc.mapWork (·.migrate target) } }

/-- `RulesManager.updateToVersion` on the node. Its two writes, the update of the container and then
that of the field `releaseId`, are one step, so no call runs between them. -/
def updateToVersion (s : System E) (version : JString) : System E :=
  match s.rules.updateToVersion E version with
  | .ok (true, rules) => { s.migrate (rules.newReleaseId version) with rules := rules }
  | .ok (false, rules) => { s with rules := rules }
  | .error _ => s

variable {s s' : System E}

/-- A new call changes nothing but the tasks that wait. -/
theorem call_eq_some {job : Job F} (h : s.call job = some s') :
    ∃ queued, s' = { s with pool :=
      { s.pool.spawn ⟨job, job.start, s.pool.shared.added⟩ with
        shared := { s.pool.shared with queued := queued } } } := by
  unfold call at h
  cases job with
  | snapshot =>
    simp only at h
    split at h
    · cases h
    · cases h
      exact ⟨_, rfl⟩
  | _ =>
    cases h
    exact ⟨s.pool.shared.queued, rfl⟩

/-- A change of the node's rules leaves the shared state, and the sessions too unless it
completes. -/
theorem updateToVersion_cases (s : System E) (version : JString) :
    s.updateToVersion version = s ∨
      ∃ ok rules, s.rules.updateToVersion E version = .ok (ok, rules) ∧
        s.updateToVersion version = ⟨rules, if ok then
          s.pool.map fun t => { t with pc := t.pc.mapWork (·.migrate (rules.newReleaseId version)) }
          else s.pool⟩ := by
  unfold updateToVersion
  split
  · exact .inr ⟨true, _, ‹_›, rfl⟩
  · exact .inr ⟨false, _, ‹_›, rfl⟩
  · exact .inl rfl

end System

/-! ## The statements -/

variable [Fact F] (rm : RulesManager)

/-- One statement: what it does, and the statement after it. -/
def next (job : Job F) : Statement E → SharedCall E (Statement E)
  | .waitForSnapshot => do
    let s ← this
    pure (if s.object.saving then .readLatch else .check)
  | .readLatch => do
    let s ← this
    pure (.await s.latch)
  | .await _ => pure .check
  | .check => do
    let s ← this
    let needed ← lift (s.object.isUpgradeNeeded rm)
    pure (if needed then .newContainer else job.afterUpgrade)
  | .newContainer => do
    let s ← this
    let container ← lift (rm.newKieContainer E s.object.version)
    pure (.deserialize container)
  | .deserialize container => do
    let s ← this
    let session ← lift (rm.deserializeOrCreate E container s.object.session)
    pure (.replay ⟨true, container, session, []⟩ false)
  | .build => do
    let s ← this
    let container ← lift rm.getKieContainer
    let session ← lift (rm.deserializeOrCreate E container s.object.session)
    pure (.replay ⟨false, container, session, []⟩ false)
  | .replay work false => do
    let s ← this
    -- Without facts nothing is fired, and the session gets its channels at once.
    if s.object.buffer.isEmpty then
      pure (job.afterReplay { work with session := rm.registerChannels work.session })
    else
      pure (.replay { work with session := rm.registerReplayChannels work.session } true)
  | .replay work true => do
    let s ← this
    match s.object.buffer with
    | [] => do
      modifyThis fun s => s.setObject fun o => { o with size := 0 }
      pure (.fire work)
    | fact :: rest => do
      -- `buffer.remove()` comes first: an exception below leaves the fact out of the buffer.
      modifyThis fun s => s.remove rest work.container.releaseId.version
      let session ← onLocal work.session (KieSessionUtils.advanceClock fact)
      let session ← onLocal session (KieSession.insert fact)
      pure (.replay { work with session := session, drained := work.drained ++ [fact] } true)
  | .fire work => do
    let session ← onLocal work.session KieSession.fireAllRules
    pure (job.afterReplay { work with session := rm.registerChannels session })
  | .update work => do
    let target ← lift rm.getReleaseId
    -- The results of the update are ignored, error messages included.
    let (container, session) ← lift (work.container.updateToVersion target work.session)
    pure (.store { work with container := container, session := session })
  | .store work => do
    -- An upgrade stores by its own container, a snapshot's task by the node's.
    let container ← lift (if work.own then .ok work.container else rm.getKieContainer)
    let bytes ← lift (rm.serialize E container work.session)
    modifyThis fun s => s.store bytes container.releaseId.version
    pure (if work.own then .setVersion else .release)
  | .setVersion => do
    let r ← lift rm.getReleaseId
    modifyThis fun s => s.setObject fun o => { o with version := r.version }
    pure job.afterUpgrade
  | .offer fact => do
    modifyThis fun s => s.offer fact rm.currentVersion
    pure .count
  | .count => do
    modifyThis fun s => s.setObject fun o => { o with size := o.size + 1 }
    pure .needToSave
  | .needToSave => do
    let s ← this
    pure (if s.object.needToSave rm then .compareAndSet else .returned)
  | .compareAndSet => do
    let s ← this
    -- A flag that is set already is set again, which changes nothing.
    modifyThis fun s => s.setObject fun o => { o with saving := true }
    pure (if s.object.saving then .returned else .newLatch)
  | .newLatch => do
    modifyThis Shared.newLatch
    pure .execute
  | .execute => do
    modifyThis fun s => { s with queued := s.queued + 1 }
    pure .returned
  | .release => do
    modifyThis fun s => s.setObject fun o => { o with saving := false }
    pure .countDown
  | .countDown => do
    modifyThis fun s => s.setObject fun o => { o with latch := o.latch - 1 }
    pure .returned
  | pc => pure pc

/-- A step of a thread: its next statement, or the exception that the statement throws. -/
def Thread.step (s : Shared E) (t : Thread E) : Option (Shared E × Thread E) :=
  if t.pc.isBlocked s then none
  else
    match next rm t.job t.pc ⟨s, []⟩ with
    | .ok pc ⟨s', out⟩ => some ({ s' with sent := s'.sent ++ out }, { t with pc := pc })
    | .error _ ⟨s', out⟩ =>
      some ({ s' with sent := s'.sent ++ out }, { t with pc := t.job.afterThrow })

/-- What a statement that returns does: the statement after it, the shared state that it leaves, and
what it delivers. -/
inductive Statement.Runs (rm : RulesManager) (job : Job F) (s : Shared E) :
    Statement E → Statement E → Shared E → List (Delivery E.Message) → Prop
  | waitForSnapshot :
    Runs rm job s .waitForSnapshot (if s.object.saving then .readLatch else .check) s []
  | readLatch : Runs rm job s .readLatch (.await s.latch) s []
  | await (latch : ℕ) : Runs rm job s (.await latch) .check s []
  | check (needed : Bool) (hneeded : s.object.isUpgradeNeeded rm = .ok needed) :
    Runs rm job s .check (if needed then .newContainer else job.afterUpgrade) s []
  | newContainer (container : KieContainer)
      (hcontainer : rm.newKieContainer E s.object.version = .ok container) :
    Runs rm job s .newContainer (.deserialize container) s []
  | deserialize (container : KieContainer) (session : KieSession E)
      (hsession : rm.deserializeOrCreate E container s.object.session = .ok session) :
    Runs rm job s (.deserialize container) (.replay ⟨true, container, session, []⟩ false) s []
  | build (container : KieContainer) (session : KieSession E)
      (hcontainer : rm.getKieContainer = .ok container)
      (hsession : rm.deserializeOrCreate E container s.object.session = .ok session) :
    Runs rm job s .build (.replay ⟨false, container, session, []⟩ false) s []
  | nothing (work : Work E) (hbuffer : s.object.buffer = []) :
    Runs rm job s (.replay work false)
      (job.afterReplay { work with session := rm.registerChannels work.session }) s []
  | begin (work : Work E) (hbuffer : s.object.buffer ≠ []) :
    Runs rm job s (.replay work false)
      (.replay { work with session := rm.registerReplayChannels work.session } true) s []
  | remove (work : Work E) (fact : F) (rest : List F) (advanced inserted : KieSession E)
      (hbuffer : s.object.buffer = fact :: rest)
      (hadvance : KieSessionUtils.advanceClock fact ⟨work.session, []⟩ = .ok () ⟨advanced, []⟩)
      (hinsert : KieSession.insert fact ⟨advanced, []⟩ = .ok () ⟨inserted, []⟩) :
    Runs rm job s (.replay work true)
      (.replay { work with session := inserted, drained := work.drained ++ [fact] } true)
      (s.remove rest work.container.releaseId.version) []
  | done (work : Work E) (hbuffer : s.object.buffer = []) :
    Runs rm job s (.replay work true) (.fire work) (s.setObject fun o => { o with size := 0 }) []
  | fire (work : Work E) (fired : KieSession E) (out : List (Delivery E.Message))
      (hfire : KieSession.fireAllRules ⟨work.session, []⟩ = .ok () ⟨fired, out⟩) :
    Runs rm job s (.fire work)
      (job.afterReplay { work with session := rm.registerChannels fired }) s out
  | update (work : Work E) (target : ReleaseId) (container : KieContainer) (session : KieSession E)
      (htarget : rm.getReleaseId = .ok target)
      (hupdate : work.container.updateToVersion target work.session = .ok (container, session)) :
    Runs rm job s (.update work) (.store { work with container := container, session := session }) s
      []
  | store (work : Work E) (container : KieContainer) (bytes : JBytes)
      (hcontainer : (if work.own then .ok work.container else rm.getKieContainer) = .ok container)
      (hbytes : rm.serialize E container work.session = .ok bytes) :
    Runs rm job s (.store work) (if work.own then .setVersion else .release)
      (s.store bytes container.releaseId.version) []
  | setVersion (r : ReleaseId) (hr : rm.getReleaseId = .ok r) :
    Runs rm job s .setVersion job.afterUpgrade
      (s.setObject fun o => { o with version := r.version }) []
  | offer (fact : F) : Runs rm job s (.offer fact) .count (s.offer fact rm.currentVersion) []
  | count : Runs rm job s .count .needToSave (s.setObject fun o => { o with size := o.size + 1 }) []
  | needToSave :
    Runs rm job s .needToSave (if s.object.needToSave rm then .compareAndSet else .returned) s []
  | compareAndSet :
    Runs rm job s .compareAndSet (if s.object.saving then .returned else .newLatch)
      (s.setObject fun o => { o with saving := true }) []
  | newLatch : Runs rm job s .newLatch .execute s.newLatch []
  | execute : Runs rm job s .execute .returned { s with queued := s.queued + 1 } []
  | release :
    Runs rm job s .release .countDown (s.setObject fun o => { o with saving := false }) []
  | countDown :
    Runs rm job s .countDown .returned (s.setObject fun o => { o with latch := o.latch - 1 }) []

/-- The statement that a thread is at returns. -/
def Thread.returns (s : Shared E) (t : Thread E) : Bool := Java.returned (next rm t.job t.pc ⟨s, []⟩)

/-- A statement of the loop of `replayFacts` that returns: the loop is over, or a fact has been taken
out and inserted. -/
theorem next_replay_ok {job : Job F} {s s' : Shared E} {work : Work E} {pc' : Statement E}
    {out : List (Delivery E.Message)}
    (h : next rm job (.replay work true) ⟨s, []⟩ = .ok pc' ⟨s', out⟩) :
    Statement.Runs rm job s (.replay work true) pc' s' out := by
  simp only [next, bind_eq_ok, this_run] at h
  obtain ⟨_, _, h₁, h⟩ := h
  cases h₁
  cases hbuffer : s.object.buffer with
  | nil =>
    rw [hbuffer] at h
    cases h
    exact .done work hbuffer
  | cons fact rest =>
    -- Neither the clock nor the insertion delivers anything.
    rw [hbuffer] at h
    simp only [bind_eq_ok, modifyThis_run, onLocal_eq_ok, pure_run] at h
    obtain ⟨_, fr₁, h₁, advanced, fr₂, ⟨hadvance, h₂⟩, inserted, fr₃, ⟨hinsert, h₃⟩, h⟩ := h
    cases h₁
    cases h
    have hout₂ := (KieSessionUtils.advanceClock_ok hadvance).2
    have hout₃ := (KieSession.insert_ok hinsert).2.2
    simp only [hout₂] at hadvance hinsert hout₃
    simp only [hout₃] at hinsert ⊢
    simp only at h₃
    rw [h₃, h₂]
    exact .remove work _ _ advanced inserted hbuffer hadvance hinsert

/-- A statement that returns runs as described. -/
theorem next_eq_ok {job : Job F} {s s' : Shared E} {pc pc' : Statement E}
    {out : List (Delivery E.Message)} (hpc : pc.isBlocked s = false)
    (h : next rm job pc ⟨s, []⟩ = .ok pc' ⟨s', out⟩) : Statement.Runs rm job s pc pc' s' out := by
  cases pc with
  | waitForSnapshot => cases h; exact .waitForSnapshot
  | readLatch => cases h; exact .readLatch
  | await latch => cases h; exact .await latch
  | check =>
    simp only [next, bind_eq_ok, this_run, lift_eq_ok, pure_run] at h
    obtain ⟨_, _, h₁, needed, _, ⟨hneeded, rfl⟩, h⟩ := h
    cases h₁
    cases h
    exact .check needed hneeded
  | newContainer =>
    simp only [next, bind_eq_ok, this_run, lift_eq_ok, pure_run] at h
    obtain ⟨_, _, h₁, container, _, ⟨hcontainer, rfl⟩, h⟩ := h
    cases h₁
    cases h
    exact .newContainer container hcontainer
  | deserialize container =>
    simp only [next, bind_eq_ok, this_run, lift_eq_ok, pure_run] at h
    obtain ⟨_, _, h₁, session, _, ⟨hsession, rfl⟩, h⟩ := h
    cases h₁
    cases h
    exact .deserialize container session hsession
  | build =>
    simp only [next, bind_eq_ok, this_run, lift_eq_ok, pure_run] at h
    obtain ⟨_, _, h₁, container, _, ⟨hcontainer, rfl⟩, session, _, ⟨hsession, rfl⟩, h⟩ := h
    cases h₁
    cases h
    exact .build container session hcontainer hsession
  | replay work begun =>
    cases begun with
    | false =>
      simp only [next, bind_eq_ok, this_run] at h
      obtain ⟨_, _, h₁, h⟩ := h
      cases h₁
      split at h
      · cases h
        exact .nothing work (List.isEmpty_iff.1 ‹_›)
      · cases h
        exact .begin work (mt List.isEmpty_iff.2 ‹_›)
    | true => exact next_replay_ok rm h
  | fire work =>
    -- What the statement delivers is what the firing delivers.
    simp only [next, bind_eq_ok, onLocal_eq_ok, pure_run] at h
    obtain ⟨fired, fr₁, ⟨hfire, h₁⟩, h⟩ := h
    cases h
    simp only at h₁
    rw [h₁]
    exact .fire work fired _ hfire
  | update work =>
    simp only [next, bind_eq_ok, lift_eq_ok, pure_run] at h
    obtain ⟨target, _, ⟨htarget, rfl⟩, ⟨container, session⟩, _, ⟨hupdate, rfl⟩, h⟩ := h
    cases h
    exact .update work target container session htarget hupdate
  | store work =>
    simp only [next, bind_eq_ok, lift_eq_ok, modifyThis_run, pure_run] at h
    obtain ⟨container, _, ⟨hcontainer, rfl⟩, bytes, _, ⟨hbytes, rfl⟩, _, _, h₁, h⟩ := h
    cases h₁
    cases h
    exact .store work container bytes hcontainer hbytes
  | setVersion =>
    simp only [next, bind_eq_ok, lift_eq_ok, modifyThis_run, pure_run] at h
    obtain ⟨r, _, ⟨hr, rfl⟩, _, _, h₁, h⟩ := h
    cases h₁
    cases h
    exact .setVersion r hr
  | offer fact => cases h; exact .offer fact
  | count => cases h; exact .count
  | needToSave => cases h; exact .needToSave
  | compareAndSet => cases h; exact .compareAndSet
  | newLatch => cases h; exact .newLatch
  | execute => cases h; exact .execute
  | release => cases h; exact .release
  | countDown => cases h; exact .countDown
  -- A thread that has come to an end takes no step.
  | returned => cases hpc
  | rebuilt work => cases hpc
  | thrown => cases hpc

/-- The loop of `replayFacts` throws only after it has taken a fact out of the buffer. -/
theorem next_replay_error {job : Job F} {s s' : Shared E} {work : Work E}
    {out : List (Delivery E.Message)} {e : Throwable}
    (h : next rm job (.replay work true) ⟨s, []⟩ = .error e ⟨s', out⟩) :
    ∃ fact rest, s.object.buffer = fact :: rest ∧
      s' = s.remove rest work.container.releaseId.version ∧ out = [] := by
  simp only [next, bind_eq_error, this_run] at h
  rcases h with h | ⟨_, _, h₁, h⟩
  · cases h
  cases h₁
  cases hbuffer : s.object.buffer with
  | nil =>
    rw [hbuffer] at h
    cases h
  | cons fact rest =>
    rw [hbuffer] at h
    simp only [bind_eq_error, modifyThis_run, onLocal_eq_error, onLocal_eq_ok, pure_run] at h
    rcases h with h | ⟨_, fr₁, h₁, h⟩
    · cases h
    cases h₁
    refine ⟨fact, rest, rfl, ?_⟩
    rcases h with ⟨⟨_, hadvance⟩, h₂⟩ | ⟨advanced, fr₂, ⟨hadvance, h₂⟩, h⟩
    · exact ⟨h₂, (KieSessionUtils.advanceClock_error hadvance).2⟩
    have hout := (KieSessionUtils.advanceClock_ok hadvance).2
    rcases h with ⟨⟨_, hinsert⟩, h₃⟩ | ⟨_, _, -, h⟩
    · exact ⟨h₃.trans h₂, (KieSession.insert_error hinsert).2.2.trans hout⟩
    · cases h

/-- A statement that throws has changed nothing, or has taken a fact out of the buffer; it has
delivered nothing, or what the rules sent before they threw. -/
theorem next_eq_error {job : Job F} {s s' : Shared E} {pc : Statement E}
    {out : List (Delivery E.Message)} {e : Throwable}
    (h : next rm job pc ⟨s, []⟩ = .error e ⟨s', out⟩) :
    (s' = s ∧ (out = [] ∨ ∃ work fired, pc = .fire work ∧
      KieSession.fireAllRules ⟨work.session, []⟩ = .error e ⟨fired, out⟩)) ∨
    out = [] ∧ ∃ work fact rest, pc = .replay work true ∧ s.object.buffer = fact :: rest ∧
      s' = s.remove rest work.container.releaseId.version := by
  cases pc with
  | check | newContainer | deserialize | build | update | setVersion =>
    -- Only the computations of values can throw, and nothing is written before them.
    simp only [next, bind_eq_error, this_run, lift_eq_error, lift_eq_ok, modifyThis_run,
      pure_run] at h
    grind
  | store work =>
    simp only [next, bind_eq_error, lift_eq_error, lift_eq_ok, modifyThis_run, pure_run] at h
    grind
  | replay work begun =>
    cases begun with
    | false =>
      simp only [next, bind_eq_error, this_run] at h
      rcases h with h | ⟨_, _, h₁, h⟩
      · cases h
      · cases h₁
        split at h <;> cases h
    | true =>
      obtain ⟨fact, rest, hbuffer, hs', hout⟩ := next_replay_error rm h
      exact .inr ⟨hout, work, fact, rest, rfl, hbuffer, hs'⟩
  | fire work =>
    simp only [next, bind_eq_error, onLocal_eq_error, pure_run] at h
    rcases h with ⟨⟨fired, hfire⟩, h₁⟩ | ⟨_, _, -, h⟩
    · exact .inl ⟨h₁, .inr ⟨work, fired, rfl, hfire⟩⟩
    · cases h
  | _ => cases h

namespace System

/-- A step of a thread. -/
def step (s : System E) (i : ℕ) : Option (System E) :=
  (s.pool.threads[i]?).bind fun t =>
    (t.step s.rules s.pool.shared).map fun (shared, t) => { s with pool := s.pool.set i shared t }

/-- The systems, step by step. -/
def lts (E : KieEngine F) : Lts (System E) (Action F) where
  step s
    | .call job => s.call job
    | .step i => s.step i
    | .updateToVersion version => some (s.updateToVersion version)

variable {s s' : System E}

theorem step_eq_some {i : ℕ} (h : s.step i = some s') :
    ∃ t shared t', s.pool.threads[i]? = some t ∧ t.step s.rules s.pool.shared = some (shared, t') ∧
      s' = { s with pool := s.pool.set i shared t' } := by
  simp only [step, Option.bind_eq_some_iff, Option.map_eq_some_iff, Prod.exists] at h
  obtain ⟨t, ht, shared, t', hstep, rfl⟩ := h
  exact ⟨t, shared, t', ht, hstep, rfl⟩

end System

/-- A step of a thread runs its statement, or throws. -/
theorem Thread.step_eq_some {s s' : Shared E} {t t' : Thread E}
    (h : t.step rm s = some (s', t')) :
    (∃ pc s₁ out, Statement.Runs rm t.job s t.pc pc s₁ out ∧
        s' = { s₁ with sent := s₁.sent ++ out } ∧ t' = { t with pc := pc }) ∨
      ∃ e s₁ out, next rm t.job t.pc ⟨s, []⟩ = .error e ⟨s₁, out⟩ ∧
        s' = { s₁ with sent := s₁.sent ++ out } ∧ t' = { t with pc := t.job.afterThrow } := by
  unfold Thread.step at h
  split at h
  · cases h
  · have hpc : t.pc.isBlocked s = false := Bool.eq_false_iff.2 ‹_›
    split at h
    · cases h
      exact .inl ⟨_, _, _, next_eq_ok rm hpc ‹_›, rfl, rfl⟩
    · cases h
      exact .inr ⟨_, _, _, ‹_›, rfl, rfl⟩

/-- A step of a thread whose statement returns runs it. -/
theorem Thread.step_of_returns {s s' : Shared E} {t t' : Thread E} (hreturns : t.returns rm s = true)
    (h : t.step rm s = some (s', t')) :
    ∃ pc s₁ out, Statement.Runs rm t.job s t.pc pc s₁ out ∧
      s' = { s₁ with sent := s₁.sent ++ out } ∧ t' = { t with pc := pc } := by
  rcases Thread.step_eq_some rm h with h | ⟨e, s₁, out, herror, -⟩
  · exact h
  · rw [Thread.returns, herror] at hreturns
    cases hreturns

end Hacep
