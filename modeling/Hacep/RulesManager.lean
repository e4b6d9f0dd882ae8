import Hacep.Engine

/-!
# The rules manager of a node

`RulesManager` owns the node's rules container: it starts it on a release, moves it to another
version, makes sessions, turns sessions into bytes and back, and registers channels. The names of
the rule base and of the session, which the configuration also gives, only select what the engine
builds from a release, so they are part of the engine here.
-/

namespace Hacep

open Java

/-- `RulesConfiguration`: the coordinates of the rules, and the channels by name. -/
structure RulesConfiguration where
  channels : List (JString × ℕ)
  replayChannels : List (JString × ℕ)
  groupId : JString
  artifactId : JString
  version : JString

/-- The same names stand for a channel and for its replay channel. -/
def RulesConfiguration.SameNames (c : RulesConfiguration) : Prop :=
  ∀ n, n ∈ c.channels.map Prod.fst ↔ n ∈ c.replayChannels.map Prod.fst

/-- `RulesManager`. `none` is `null`; `gridBuffer` is the system property `grid.buffer`, where it is
set to a number. -/
structure RulesManager where
  started : Bool := false
  rulesConfiguration : RulesConfiguration
  kieContainer : Option KieContainer := none
  releaseId : Option ReleaseId := none
  gridBuffer : Option ℤ := none

/-- A session without channels. -/
def KieSession.ofState {F : Type} {E : KieEngine F} (state : E.State) : KieSession E :=
  ⟨state, fun _ => none⟩

namespace RulesManager

variable {F : Type} (E : KieEngine F) (rm : RulesManager)

/-- `checkStatus`. -/
def checkStatus : Except Throwable Unit :=
  if rm.started then .ok ()
  else .error (.illegalStateException (jstr "Rule manager must be started first!"))

/-- `getReleaseId`, for a caller that dereferences the result. -/
def getReleaseId : Except Throwable ReleaseId := do
  rm.checkStatus
  match rm.releaseId with
  | some r => .ok r
  | none => .error .nullPointerException

/-- The node's container, for a caller that checks the status and then dereferences it. -/
def getKieContainer : Except Throwable KieContainer := do
  rm.checkStatus
  match rm.kieContainer with
  | some c => .ok c
  | none => .error .nullPointerException

/-- The release id of a version of the configured rules. -/
def newReleaseId (version : JString) : ReleaseId :=
  ⟨rm.rulesConfiguration.groupId, rm.rulesConfiguration.artifactId, version⟩

/-- `newKieContainer(version)`: an empty version stands for the configured one. -/
def newKieContainer (version : JString) : Except Throwable KieContainer := do
  let releaseId := rm.newReleaseId (if E.isEmpty version then rm.rulesConfiguration.version
    else version)
  E.newKieContainer releaseId
  .ok ⟨releaseId⟩

/-- `newKieSession(kieContainer)`: a new session has no channels. -/
def newKieSession (container : KieContainer) : Except Throwable (KieSession E) := do
  rm.checkStatus
  .ok (.ofState (E.newKieSession container.releaseId))

/-- `serialize(kieContainer, kieSession)`. -/
def serialize (container : KieContainer) (session : KieSession E) : Except Throwable JBytes := do
  rm.checkStatus
  E.marshall container.releaseId session.state

/-- `deserializeOrCreate(kieContainer, buffer)`: an unmarshalled session has no channels. -/
def deserializeOrCreate (container : KieContainer) (buffer : Option JBytes) :
    Except Throwable (KieSession E) :=
  match buffer with
  | none => rm.newKieSession E container
  | some bytes => do
    rm.checkStatus
    match E.unmarshall container.releaseId bytes with
    | .ok state => .ok (.ofState state)
    | .error e => .error (.runtimeException e)

/-- `getMaxBufferSize`. -/
def getMaxBufferSize : ℤ := rm.gridBuffer.getD 1000

variable {E}

/-- `registerChannels`. -/
def registerChannels (session : KieSession E) : KieSession E :=
  rm.rulesConfiguration.channels.foldl (fun s (name, c) => s.registerChannel name (.real c)) session

/-- `registerReplayChannels`. -/
def registerReplayChannels (session : KieSession E) : KieSession E :=
  rm.rulesConfiguration.replayChannels.foldl
    (fun s (name, c) => s.registerChannel name (.replay c)) session

variable (E)

/-- `g:a:v`, as `start` prints coordinates. -/
def coordinates (g a v : JString) : JString := g ++ jstr ":" ++ a ++ jstr ":" ++ v

/-- The check of `start` on the cached coordinates, which `null` or an empty value switches off. -/
def checkCoordinates (groupId artifactId version : JString) : Except Throwable Unit :=
  let c := rm.rulesConfiguration
  if !(E.isEmpty groupId || E.isEmpty artifactId || E.isEmpty version) &&
      (c.groupId != groupId || c.artifactId != artifactId) then
    .error (.illegalStateException
      (jstr "Cannot start a Rule Manager with different Group Id and Artifact. " ++
        jstr "Rule configuration releaseId [" ++ coordinates c.groupId c.artifactId c.version ++
        jstr "] cached value [" ++ coordinates groupId artifactId version ++ jstr "]"))
  else .ok ()

/-- `start`: `none` is `null`. A start that throws leaves the manager marked as started. -/
def start (groupId artifactId version : Option JString) : Method PEmpty RulesManager Unit := do
  let rm ← this
  onlyIf (!rm.started) do
    modifyThis fun rm => { rm with started := true }
    lift (rm.checkCoordinates E (groupId.getD []) (artifactId.getD []) (version.getD []))
    let container ← lift (rm.newKieContainer E (version.getD []))
    modifyThis fun rm =>
      { rm with kieContainer := some container, releaseId := some container.releaseId }

/-- `updateToVersion`: `false` when the container reports error messages. An exception leaves the
manager as it was. -/
def updateToVersion (version : JString) : Except Throwable (Bool × RulesManager) := do
  rm.checkStatus
  if E.isEmpty version then
    .error (.illegalArgumentException
      (jstr "Update to version cannot accept an empty version"))
  else
    let container ← rm.getKieContainer
    let target := rm.newReleaseId version
    match E.updateToVersion container.releaseId target with
    | .completed => .ok (true, { rm with kieContainer := some ⟨target⟩, releaseId := some target })
    | .errors => .ok (false, { rm with releaseId := some container.releaseId })
    | .threw e => .error e

/-- The manager is started and its container is on the release `r`. -/
structure Running (r : ReleaseId) : Prop where
  /-- It is marked as started. -/
  started : rm.started = true
  /-- Its container is on `r`. -/
  kieContainer : rm.kieContainer = some ⟨r⟩
  /-- It reports `r`. -/
  releaseId : rm.releaseId = some r

variable {E rm} {r : ReleaseId}

theorem Running.checkStatus (h : rm.Running r) : rm.checkStatus = .ok () := by
  simp [RulesManager.checkStatus, h.started]

theorem Running.getReleaseId (h : rm.Running r) : rm.getReleaseId = .ok r := by
  simp [RulesManager.getReleaseId, h.checkStatus, h.releaseId, bind, Except.bind]

theorem Running.getKieContainer (h : rm.Running r) : rm.getKieContainer = .ok ⟨r⟩ := by
  simp [RulesManager.getKieContainer, h.checkStatus, h.kieContainer, bind, Except.bind]

/-- A manager that has just been started runs the release that it was asked for, or the configured
one where it was asked for none. -/
theorem start_running {g a v : Option JString} {fr fr' : Frame PEmpty RulesManager}
    (h0 : fr.this.started = false) (h : start E g a v fr = .ok () fr') :
    fr'.this.Running (fr.this.newReleaseId
      (if E.isEmpty (v.getD []) then fr.this.rulesConfiguration.version else v.getD [])) := by
  simp only [start, bind_eq_ok, this_run] at h
  obtain ⟨rm, _, ⟨rfl, rfl⟩, h⟩ := h
  simp only [h0, Bool.not_false, onlyIf_true, bind_eq_ok, modifyThis_run, lift_eq_ok] at h
  obtain ⟨_, _, ⟨-, rfl⟩, _, _, ⟨-, rfl⟩, container, _, ⟨hc, rfl⟩, hfr⟩ := h
  simp only [newKieContainer, bind, Except.bind] at hc
  split at hc
  · cases hc
  · cases hc
    cases hfr
    exact ⟨rfl, rfl, rfl⟩

/-- A manager that has not been started starts when the coordinates pass its check and the release
can be resolved. -/
theorem start_returns_iff {g a v : Option JString} (h0 : rm.started = false) :
    (∃ fr, start E g a v ⟨rm, []⟩ = .ok () fr) ↔
      rm.checkCoordinates E (g.getD []) (a.getD []) (v.getD []) = .ok () ∧
        (E.newKieContainer (rm.newReleaseId
          (if E.isEmpty (v.getD []) then rm.rulesConfiguration.version else v.getD []))).isOk = true := by
  constructor
  · rintro ⟨fr, h⟩
    simp only [start, bind_eq_ok, this_run] at h
    obtain ⟨_, _, ⟨rfl, rfl⟩, h⟩ := h
    simp only [h0, Bool.not_false, onlyIf_true, bind_eq_ok, modifyThis_run, lift_eq_ok] at h
    obtain ⟨_, _, ⟨-, rfl⟩, _, _, ⟨hcheck, rfl⟩, container, _, ⟨hc, rfl⟩, -⟩ := h
    simp only [newKieContainer, except_bind_eq_ok] at hc
    obtain ⟨u, hu, -⟩ := hc
    exact ⟨hcheck, by rw [hu]; rfl⟩
  · rintro ⟨hcheck, hresolves⟩
    cases hu : E.newKieContainer (rm.newReleaseId
        (if E.isEmpty (v.getD []) then rm.rulesConfiguration.version else v.getD [])) with
    | error e => rw [hu] at hresolves; cases hresolves
    | ok u =>
      obtain ⟨container, hcontainer⟩ : ∃ c, rm.newKieContainer E (v.getD []) = .ok c :=
        ⟨_, except_bind_eq_ok.2 ⟨u, hu, rfl⟩⟩
      refine ⟨⟨{ rm with
        started := true
        kieContainer := some container
        releaseId := some container.releaseId }, []⟩, ?_⟩
      unfold start
      rw [bind_of_ok this_run, h0, Bool.not_false, onlyIf_true, bind_of_ok (modifyThis_run _),
        hcheck, bind_of_ok (lift_ok _), hcontainer, bind_of_ok (lift_ok _), modifyThis_run]

/-- A start keeps the configuration. -/
theorem keeps_start (c : RulesConfiguration) (g a v : Option JString) :
    Keeps (fun rm => rm.rulesConfiguration = c) (start E g a v) := by
  refine Keeps.this_bind fun rm _ => .onlyIf _ ?_
  refine Keeps.bind (.modifyThis fun _ h => h) fun _ _ _ _ => ?_
  refine Keeps.bind (.lift _) fun _ _ _ _ => ?_
  exact Keeps.bind (.lift _) fun _ _ _ _ => .modifyThis fun _ h => h

/-- An update keeps the configuration. -/
theorem updateToVersion_configuration {v : JString} {ok : Bool} {rm' : RulesManager}
    (h : rm.updateToVersion E v = .ok (ok, rm')) :
    rm'.rulesConfiguration = rm.rulesConfiguration := by
  simp only [updateToVersion, except_bind_eq_ok] at h
  obtain ⟨-, -, h⟩ := h
  split at h
  · cases h
  · obtain ⟨container, -, h⟩ := except_bind_eq_ok.1 h
    split at h <;> cases h <;> rfl

/-- A running manager that an update completes on runs the new version. -/
theorem updateToVersion_running {v : JString} {ok : Bool} {rm' : RulesManager}
    (hr : rm.Running r) (h : rm.updateToVersion E v = .ok (ok, rm')) :
    rm'.rulesConfiguration = rm.rulesConfiguration ∧
      rm'.Running (if ok then rm.newReleaseId v else r) := by
  simp only [updateToVersion, hr.checkStatus, hr.getKieContainer, bind, Except.bind] at h
  split at h
  · cases h
  · split at h
    · cases h
      exact ⟨rfl, hr.started, rfl, rfl⟩
    · cases h
      exact ⟨rfl, hr.started, hr.kieContainer, rfl⟩
    · cases h

/-! ## Sessions and channels -/

/-- The object that a list of named channels ends up with under a name: the last one listed. -/
def lookup (channels : List (JString × ℕ)) (name : JString) : Option ℕ :=
  channels.foldl (fun found (n, c) => if name = n then some c else found) none

/-- Registering a list of channels changes the names in it and no other, and no state. -/
theorem foldl_registerChannel (kind : ℕ → Channel) (channels : List (JString × ℕ))
    (s : KieSession E) (found : Option ℕ) (base : JString → Option Channel)
    (name : JString) (h : s.channels name = (found.map kind).or (base name)) :
    (channels.foldl (fun s (n, c) => s.registerChannel n (kind c)) s).channels name =
      ((channels.foldl (fun found (n, c) => if name = n then some c else found) found).map
        kind).or (base name) := by
  induction channels generalizing s found with
  | nil => exact h
  | cons nc channels ih =>
    obtain ⟨n, c⟩ := nc
    refine ih (s.registerChannel n (kind c)) (if name = n then some c else found) ?_
    by_cases hn : name = n
    · simp [KieSession.registerChannel, hn]
    · simp [KieSession.registerChannel, hn, h]

theorem foldl_registerChannel_state (kind : ℕ → Channel) (channels : List (JString × ℕ))
    (s : KieSession E) :
    (channels.foldl (fun s (n, c) => s.registerChannel n (kind c)) s).state = s.state := by
  induction channels generalizing s with
  | nil => rfl
  | cons nc channels ih => exact ih _

/-- After `registerChannels` a configured name has its channel; any other keeps what it had. -/
theorem registerChannels_channels (s : KieSession E) (name : JString) :
    (rm.registerChannels s).channels name =
      ((lookup rm.rulesConfiguration.channels name).map .real).or (s.channels name) :=
  foldl_registerChannel .real _ s none s.channels name (by simp)

/-- After `registerReplayChannels` a configured name has its replay channel; any other keeps what
it had. -/
theorem registerReplayChannels_channels (s : KieSession E) (name : JString) :
    (rm.registerReplayChannels s).channels name =
      ((lookup rm.rulesConfiguration.replayChannels name).map .replay).or (s.channels name) :=
  foldl_registerChannel .replay _ s none s.channels name (by simp)

@[simp]
theorem registerChannels_state (s : KieSession E) : (rm.registerChannels s).state = s.state :=
  foldl_registerChannel_state .real _ s

@[simp]
theorem registerReplayChannels_state (s : KieSession E) :
    (rm.registerReplayChannels s).state = s.state :=
  foldl_registerChannel_state .replay _ s

end RulesManager

/-- The facts that a stored snapshot holds; an absent one holds none. -/
def FactHistory.stored {F : Type} {E : KieEngine F} (H : FactHistory E) : Option JBytes → List F
  | none => []
  | some bytes => H.inside bytes

section History

variable {F : Type} {E : KieEngine F} (H : FactHistory E) {rm : RulesManager}
  {container : KieContainer}

/-- A new session holds no facts and has no channels. -/
theorem RulesManager.newKieSession_ok {s : KieSession E}
    (h : rm.newKieSession E container = .ok s) :
    H.history s.state = [] ∧ s.channels = fun _ => none := by
  simp only [newKieSession, except_bind_eq_ok] at h
  obtain ⟨-, -, h⟩ := h
  cases h
  exact ⟨H.newKieSession _, rfl⟩

/-- A session read from a stored snapshot holds the snapshot's facts and has no channels. -/
theorem RulesManager.deserializeOrCreate_ok {buffer : Option JBytes} {s : KieSession E}
    (h : rm.deserializeOrCreate E container buffer = .ok s) :
    H.history s.state = H.stored buffer ∧ s.channels = fun _ => none := by
  cases buffer with
  | none => exact newKieSession_ok H h
  | some bytes =>
    simp only [deserializeOrCreate, except_bind_eq_ok] at h
    obtain ⟨-, -, h⟩ := h
    split at h
    · cases h
      exact ⟨H.unmarshall _ _ _ ‹_›, rfl⟩
    · cases h

/-- The bytes of a session hold its facts. -/
theorem RulesManager.serialize_ok {s : KieSession E} {bytes : JBytes}
    (h : rm.serialize E container s = .ok bytes) : H.inside bytes = H.history s.state := by
  simp only [serialize, except_bind_eq_ok] at h
  obtain ⟨-, -, h⟩ := h
  exact H.marshall _ _ _ h

end History

end Hacep
