import Hacep.Recorder

/-!
# A cluster-wide rules update

`RulesUpdateVersionImpl.execute` writes the new version into the replicated info cache. The put runs
`UpdateVersionListener` on every node and throws when one of the listeners does; `execute` then puts
the old version back and throws. The listener calls `RulesManager.updateToVersion` and drops its
result, so a node whose container reports error messages, and which therefore stays on its old
release, looks to the writer like one that has moved.

`execute_promises_iff` takes a cluster of any size that agrees on its version, any release id and
any outcome at each node. A call that throws goes back on every node that can. A call that returns
leaves the cluster agreed on the new version exactly when no node has reported error messages:
`execute` meets its contract if and only if some node throws, or none reports errors on the way to a
version that is not the old one.
-/

namespace Hacep

open Java

namespace RulesManager

/-- `RULES_GROUP_ID`. -/
def RULES_GROUP_ID : JString := jstr "RULES_GROUP_ID"

/-- `RULES_ARTIFACT_ID`. -/
def RULES_ARTIFACT_ID : JString := jstr "RULES_ARTIFACT_ID"

/-- `RULES_VERSION`. -/
def RULES_VERSION : JString := jstr "RULES_VERSION"

end RulesManager

open RulesManager (RULES_GROUP_ID RULES_ARTIFACT_ID RULES_VERSION)

variable {F N : Type}

namespace UpdateVersionListener

/-- One of the two comparisons of `eventReceived`: the entry is the one of a coordinate, and the
coordinate of the running release is not the key. -/
def differsFrom (rm : RulesManager) (name key : JString) (coordinate : ReleaseId → JString) :
    Except Throwable Bool :=
  if name = key then do
    let r ← rm.getReleaseId
    .ok (coordinate r != key)
  else .ok false

/-- `updateVersion`: the result of `updateToVersion` is dropped. -/
def updateVersion (E : KieEngine F) (value : JString) : Method PEmpty RulesManager Unit := do
  let rm ← this
  let (_, rm) ← lift (rm.updateToVersion E value)
  modifyThis fun _ => rm

/-- `eventReceived`. -/
def eventReceived (E : KieEngine F) (key value : JString) : Method PEmpty RulesManager Unit := do
  let rm ← this
  let artifact ← lift (differsFrom rm RULES_ARTIFACT_ID key ReleaseId.artifactId)
  let group ← lift (if artifact then .ok false
    else differsFrom rm RULES_GROUP_ID key ReleaseId.groupId)
  if artifact || group then
    throw (.illegalStateException
      (jstr "Cannot change rules artifact or group id to [" ++ key ++ jstr "]."))
  else onlyIf (key == RULES_VERSION) (updateVersion E value)

end UpdateVersionListener

/-- The nodes that share the info cache, with the rules manager of each. -/
structure InfoCluster (N : Type) where
  entries : JString → Option JString
  rules : N → RulesManager

section Put

variable [Fintype N] (engines : N → KieEngine F) (cacheException : Throwable)

/-- `put` on the info cache: an entry that exists is modified, and the listeners of all nodes run
after the write. -/
def InfoCluster.put (key value : JString) : Method PEmpty (InfoCluster N) Unit := fun fr =>
  let c := fr.this
  let entries := Function.update c.entries key (some value)
  match c.entries key with
  | none => .ok () { fr with this := { c with entries := entries } }
  | some _ =>
    let results := fun n => UpdateVersionListener.eventReceived (engines n) key value
      ⟨c.rules n, []⟩
    let c' := { entries := entries, rules := fun n => (finalFrame (results n)).this }
    if ∃ n, returned (results n) = false then .error cacheException { fr with this := c' }
    else .ok () { fr with this := c' }

/-- The value of a cache entry, for a caller that dereferences it. -/
def InfoCluster.get (c : InfoCluster N) (key : JString) : Except Throwable JString :=
  match c.entries key with
  | some value => .ok value
  | none => .error .nullPointerException

/-- `execute`, for the three tokens of a release id. -/
def RulesUpdateVersionImpl.executeTokens (releaseId groupId artifactId version : JString) :
    Method PEmpty (InfoCluster N) JString := do
  let c ← this
  let expectedGroupId ← lift (c.get RULES_GROUP_ID)
  let sameArtifact ← lift (if expectedGroupId = groupId then do
      let expectedArtifactId ← c.get RULES_ARTIFACT_ID
      .ok (expectedArtifactId == artifactId)
    else .ok false)
  if sameArtifact then do
    catching (InfoCluster.put engines cacheException RULES_VERSION version) fun e => do
      -- The version that was cached when the call began; the cache refuses `null`.
      let oldVersion ← lift (c.get RULES_VERSION)
      InfoCluster.put engines cacheException RULES_VERSION oldVersion
      throw (.runtimeException e)
    pure releaseId
  else throw (.illegalStateException
    (jstr "Update version in HACEP cannot change groupdId nor artifactId"))

/-- `execute`; 58 is the colon. -/
def RulesUpdateVersionImpl.execute (releaseId : JString) : Method PEmpty (InfoCluster N) JString :=
  match split 58 releaseId with
  | [groupId, artifactId, version] =>
    executeTokens engines cacheException releaseId groupId artifactId version
  | _ => throw (.illegalArgumentException
      (jstr "Illegal release id value [" ++ releaseId ++ jstr "]"))

end Put

/-! ## The update, for any way to put -/

namespace InfoCluster

variable {c : InfoCluster N}

/-- A value that is got is in the cache. -/
theorem get_eq_ok {key value : JString} :
    c.get key = .ok value ↔ c.entries key = some value := by
  unfold get
  cases c.entries key <;> simp

/-- A value that is not in the cache is not got. -/
theorem get_eq_error {key : JString} (h : c.entries key = none) :
    c.get key = .error .nullPointerException := by
  rw [get, h]

end InfoCluster

namespace RulesUpdateVersionImpl

section AnyPut

variable {δ : Type} (put : JString → JString → Method δ (InfoCluster N) Unit)

/-- `execute` for the three tokens of a release id, with any `put`. -/
def executeTokensWith (releaseId groupId artifactId version : JString) :
    Method δ (InfoCluster N) JString := do
  let c ← this
  let expectedGroupId ← lift (c.get RULES_GROUP_ID)
  let sameArtifact ← lift (if expectedGroupId = groupId then do
      let expectedArtifactId ← c.get RULES_ARTIFACT_ID
      .ok (expectedArtifactId == artifactId)
    else .ok false)
  if sameArtifact then do
    catching (put RULES_VERSION version) fun e => do
      let oldVersion ← lift (c.get RULES_VERSION)
      put RULES_VERSION oldVersion
      throw (.runtimeException e)
    pure releaseId
  else throw (.illegalStateException
    (jstr "Update version in HACEP cannot change groupdId nor artifactId"))

/-- `execute`, with any `put`. -/
def executeWith (releaseId : JString) : Method δ (InfoCluster N) JString :=
  match split 58 releaseId with
  | [groupId, artifactId, version] =>
    executeTokensWith put releaseId groupId artifactId version
  | _ => throw (.illegalArgumentException
      (jstr "Illegal release id value [" ++ releaseId ++ jstr "]"))

section Run

variable {c : InfoCluster N} {out : List δ} {releaseId : JString}

/-- Coordinates that are not the cached ones are refused. -/
theorem executeTokensWith_other {g a version : JString}
    (hother : ¬(c.entries RULES_GROUP_ID = some g ∧ c.entries RULES_ARTIFACT_ID = some a)) :
    ∃ e, executeTokensWith put releaseId g a version ⟨c, out⟩ = .error e ⟨c, out⟩ := by
  unfold executeTokensWith
  rw [bind_of_ok this_run]
  cases hgroup : c.entries RULES_GROUP_ID with
  | none =>
    rw [InfoCluster.get_eq_error hgroup, bind_of_error (lift_error _)]
    exact ⟨_, rfl⟩
  | some g' =>
    rw [InfoCluster.get_eq_ok.2 hgroup, bind_of_ok (lift_ok _)]
    by_cases hg : g' = g
    · -- The group id is the cached one, so the artifact id is not.
      subst hg
      cases hartifact : c.entries RULES_ARTIFACT_ID with
      | none =>
        rw [if_pos rfl, InfoCluster.get_eq_error hartifact]
        exact ⟨_, rfl⟩
      | some a' =>
        have hne : (a' == a) = false := by
          simp only [beq_eq_false_iff_ne]
          rintro rfl
          exact hother ⟨hgroup, hartifact⟩
        have hcheck : (do
            let expectedArtifactId ← Except.ok a'
            Except.ok (expectedArtifactId == a) : Except Throwable Bool) = .ok false :=
          congrArg Except.ok hne
        rw [if_pos rfl, InfoCluster.get_eq_ok.2 hartifact, hcheck, bind_of_ok (lift_ok _),
          if_neg Bool.false_ne_true]
        exact ⟨_, rfl⟩
    · rw [if_neg hg, bind_of_ok (lift_ok _), if_neg Bool.false_ne_true]
      exact ⟨_, rfl⟩

/-- The cached coordinates are put with the new version; when the put throws, the old version is put
back, if there was one. -/
theorem executeTokensWith_same {g a version : JString}
    (hgroup : c.entries RULES_GROUP_ID = some g) (hartifact : c.entries RULES_ARTIFACT_ID = some a) :
    executeTokensWith put releaseId g a version ⟨c, out⟩ =
      match put RULES_VERSION version ⟨c, out⟩ with
      | .ok _ fr => .ok releaseId fr
      | .error e fr =>
        match c.entries RULES_VERSION with
        | none => .error .nullPointerException fr
        | some old =>
          match put RULES_VERSION old fr with
          | .ok _ fr => .error (.runtimeException e) fr
          | .error e fr => .error e fr := by
  have hcheck : (if g = g then do
      let expectedArtifactId ← c.get RULES_ARTIFACT_ID
      Except.ok (expectedArtifactId == a)
    else Except.ok false : Except Throwable Bool) = .ok true := by
    rw [if_pos rfl, InfoCluster.get_eq_ok.2 hartifact]
    exact congrArg Except.ok (beq_self_eq_true a)
  unfold executeTokensWith
  rw [bind_of_ok this_run, InfoCluster.get_eq_ok.2 hgroup, bind_of_ok (lift_ok _), hcheck,
    bind_of_ok (lift_ok _), if_pos rfl]
  cases hput : put RULES_VERSION version ⟨c, out⟩ with
  | ok _ fr =>
    rw [bind_of_ok (catching_of_ok hput)]
    rfl
  | error e fr =>
    -- The handler puts the old version back, and throws in either case.
    simp only
    cases hold : c.entries RULES_VERSION with
    | none =>
      rw [bind_of_error]
      rw [catching_of_error hput, InfoCluster.get_eq_error hold, bind_of_error (lift_error _)]
    | some old =>
      have hget := InfoCluster.get_eq_ok.2 hold
      simp only
      cases hback : put RULES_VERSION old fr with
      | ok _ fr' =>
        rw [bind_of_error]
        rw [catching_of_error hput, hget, bind_of_ok (lift_ok _), bind_of_ok hback, throw_run]
      | error e' fr' =>
        rw [bind_of_error]
        rw [catching_of_error hput, hget, bind_of_ok (lift_ok _), bind_of_error hback]

/-- A release id is three tokens, or is refused. -/
theorem executeWith_malformed (htokens : ¬∃ g a version, split 58 releaseId = [g, a, version]) :
    executeWith put releaseId = throw (.illegalArgumentException
      (jstr "Illegal release id value [" ++ releaseId ++ jstr "]")) := by
  unfold executeWith
  split
  · exact absurd ⟨_, _, _, ‹_›⟩ htokens
  · rfl

/-- A release id that does not name the cached rules is refused. -/
theorem executeWith_rejected {groupId artifactId : JString}
    (hgroup : c.entries RULES_GROUP_ID = some groupId)
    (hartifact : c.entries RULES_ARTIFACT_ID = some artifactId)
    (hsplit : ∀ version, split 58 releaseId ≠ [groupId, artifactId, version]) :
    ∃ e, executeWith put releaseId ⟨c, out⟩ = .error e ⟨c, out⟩ := by
  by_cases htokens : ∃ g a version, split 58 releaseId = [g, a, version]
  · obtain ⟨g, a, version, htokens⟩ := htokens
    have hother : ¬(c.entries RULES_GROUP_ID = some g ∧ c.entries RULES_ARTIFACT_ID = some a) := by
      rw [hgroup, hartifact, Option.some.injEq, Option.some.injEq]
      rintro ⟨rfl, rfl⟩
      exact hsplit version htokens
    unfold executeWith
    rw [htokens]
    exact executeTokensWith_other put hother
  · rw [executeWith_malformed put htokens]
    exact ⟨_, rfl⟩

end Run

end AnyPut

/-- With the put of the info cache this is `execute`. -/
theorem executeWith_put [Fintype N] (engines : N → KieEngine F) (cacheException : Throwable) :
    executeWith (InfoCluster.put engines cacheException) = execute engines cacheException :=
  rfl

end RulesUpdateVersionImpl

/-! ## What an update does to a node -/

/-- How an update from one version of the rules `groupId:artifactId` to another ends:
`RulesManager.updateToVersion` does not accept a version that it finds empty. -/
def KieEngine.outcome (E : KieEngine F) (groupId artifactId version target : JString) :
    UpdateOutcome :=
  if E.isEmpty target then
    .threw (.illegalArgumentException (jstr "Update to version cannot accept an empty version"))
  else E.updateToVersion ⟨groupId, artifactId, version⟩ ⟨groupId, artifactId, target⟩

/-- The version that an update leaves the container on. -/
def UpdateOutcome.lands (outcome : UpdateOutcome) (version target : JString) : JString :=
  match outcome with
  | .completed => target
  | .errors | .threw _ => version

/-- The update has thrown. -/
def UpdateOutcome.hasThrown : UpdateOutcome → Bool
  | .threw _ => true
  | .completed | .errors => false

/-- The manager runs a version of the rules `groupId:artifactId`. -/
structure RulesManager.Runs (rm : RulesManager) (groupId artifactId version : JString) : Prop where
  /-- Its configuration has the group id. -/
  group : rm.rulesConfiguration.groupId = groupId
  /-- Its configuration has the artifact id. -/
  artifact : rm.rulesConfiguration.artifactId = artifactId
  /-- Its container is on the version. -/
  running : rm.Running ⟨groupId, artifactId, version⟩

section Node

variable {E : KieEngine F} {rm : RulesManager} {groupId artifactId version target : JString}

/-- A manager runs one version at a time. -/
theorem RulesManager.Runs.unique (h : rm.Runs groupId artifactId version)
    (h' : rm.Runs groupId artifactId target) : version = target := by
  have heq : some (⟨groupId, artifactId, version⟩ : ReleaseId) = some ⟨groupId, artifactId, target⟩ :=
    h.running.releaseId.symm.trans h'.running.releaseId
  cases heq
  rfl

/-- An event for the version is an update of the manager. -/
theorem UpdateVersionListener.eventReceived_version (rm : RulesManager) :
    eventReceived E RULES_VERSION target ⟨rm, []⟩ = updateVersion E target ⟨rm, []⟩ := by
  have hartifact : RULES_ARTIFACT_ID ≠ RULES_VERSION := by decide
  have hgroup : RULES_GROUP_ID ≠ RULES_VERSION := by decide
  have hself : (RULES_VERSION == RULES_VERSION) = true := by decide
  unfold eventReceived differsFrom
  rw [bind_of_ok this_run, if_neg hartifact, bind_of_ok (lift_ok _), if_neg Bool.false_ne_true,
    if_neg hgroup, bind_of_ok (lift_ok _), Bool.or_self, if_neg Bool.false_ne_true, hself,
    onlyIf_true]

/-- What the update of a running manager does. -/
theorem RulesManager.updateToVersion_of_runs (h : rm.Runs groupId artifactId version)
    (target : JString) :
    rm.updateToVersion E target =
      match E.outcome groupId artifactId version target with
      | .completed => .ok (true, { rm with
          kieContainer := some ⟨⟨groupId, artifactId, target⟩⟩
          releaseId := some ⟨groupId, artifactId, target⟩ })
      | .errors => .ok (false, { rm with releaseId := some ⟨groupId, artifactId, version⟩ })
      | .threw e => .error e := by
  have hrelease : rm.newReleaseId target = ⟨groupId, artifactId, target⟩ := by
    rw [RulesManager.newReleaseId, h.group, h.artifact]
  simp only [updateToVersion, h.running.checkStatus, h.running.getKieContainer, hrelease, bind,
    Except.bind]
  unfold KieEngine.outcome
  split <;> rfl

/-- The listener throws when the update does, and otherwise returns; the manager runs the version
that the container has landed on. -/
theorem UpdateVersionListener.updateVersion_run (h : rm.Runs groupId artifactId version)
    (target : JString) :
    returned (updateVersion E target ⟨rm, []⟩) =
        !(E.outcome groupId artifactId version target).hasThrown ∧
      (finalFrame (updateVersion E target ⟨rm, []⟩)).this.Runs groupId artifactId
        ((E.outcome groupId artifactId version target).lands version target) := by
  have hupdate := RulesManager.updateToVersion_of_runs (E := E) h target
  obtain ⟨hgroup, hartifact, hrunning⟩ := h
  unfold updateVersion
  rw [bind_of_ok this_run]
  cases houtcome : E.outcome groupId artifactId version target with
  | completed =>
    rw [houtcome] at hupdate
    rw [hupdate]
    exact ⟨rfl, hgroup, hartifact, hrunning.started, rfl, rfl⟩
  | errors =>
    rw [houtcome] at hupdate
    rw [hupdate]
    exact ⟨rfl, hgroup, hartifact, hrunning.started, hrunning.kieContainer, rfl⟩
  | threw e =>
    rw [houtcome] at hupdate
    rw [hupdate]
    exact ⟨rfl, hgroup, hartifact, hrunning⟩

end Node

/-! ## What an update does to a cluster -/

/-- All nodes run the version that the info cache has. -/
structure InfoCluster.Agrees (c : InfoCluster N) (groupId artifactId version : JString) :
    Prop where
  /-- The cached group id. -/
  group : c.entries RULES_GROUP_ID = some groupId
  /-- The cached artifact id. -/
  artifact : c.entries RULES_ARTIFACT_ID = some artifactId
  /-- The cached version. -/
  cached : c.entries RULES_VERSION = some version
  /-- It is not empty. -/
  cached_ne : version ≠ []
  /-- Every node runs it. -/
  rules : ∀ n, (c.rules n).Runs groupId artifactId version

/-- A node that has been asked for another version can go back to the old one: the update neither
throws nor leaves the node elsewhere. -/
def KieEngine.CanGoBack (E : KieEngine F) (groupId artifactId old target : JString) : Prop :=
  let version := (E.outcome groupId artifactId old target).lands old target
  (E.outcome groupId artifactId version old).hasThrown = false ∧
    (E.outcome groupId artifactId version old).lands version old = old

section Cluster

variable [Fintype N] (engines : N → KieEngine F) (cacheException : Throwable) {c : InfoCluster N}
  {groupId artifactId old target releaseId : JString}

/-- A put of a version throws when some node's update does. Each node is on the version on which its
container has landed, and the cache has the new version in either case. -/
theorem InfoCluster.put_version {version : N → JString} (hentry : c.entries RULES_VERSION = some old)
    (h : ∀ n, (c.rules n).Runs groupId artifactId (version n)) (target : JString) :
    ∃ c' : InfoCluster N,
      c'.entries = Function.update c.entries RULES_VERSION (some target) ∧
      (∀ n, (c'.rules n).Runs groupId artifactId
        (((engines n).outcome groupId artifactId (version n) target).lands (version n) target)) ∧
      put engines cacheException RULES_VERSION target ⟨c, []⟩ =
        if ∃ n, ((engines n).outcome groupId artifactId (version n) target).hasThrown = true then
          .error cacheException ⟨c', []⟩
        else .ok () ⟨c', []⟩ := by
  have hrun := fun n => UpdateVersionListener.updateVersion_run (E := engines n) (h n) target
  refine ⟨⟨_, _⟩, rfl, fun n => (hrun n).2, ?_⟩
  unfold put
  simp only [hentry, UpdateVersionListener.eventReceived_version, (hrun _).1,
    Bool.not_eq_false']
  rfl

/-- Coordinates that are not the cached ones are refused. -/
theorem RulesUpdateVersionImpl.executeTokens_other {g a version : JString}
    (hother : ¬(c.entries RULES_GROUP_ID = some g ∧ c.entries RULES_ARTIFACT_ID = some a)) :
    ∃ e, executeTokens engines cacheException releaseId g a version ⟨c, []⟩ = .error e ⟨c, []⟩ :=
  executeTokensWith_other (InfoCluster.put engines cacheException) hother

/-- The cached coordinates are put with the new version; when the put throws, the old version is put
back, if there was one. -/
theorem RulesUpdateVersionImpl.executeTokens_same {g a version : JString}
    (hgroup : c.entries RULES_GROUP_ID = some g) (hartifact : c.entries RULES_ARTIFACT_ID = some a) :
    executeTokens engines cacheException releaseId g a version ⟨c, []⟩ =
      match InfoCluster.put engines cacheException RULES_VERSION version ⟨c, []⟩ with
      | .ok _ fr => .ok releaseId fr
      | .error e fr =>
        match c.entries RULES_VERSION with
        | none => .error .nullPointerException fr
        | some old =>
          match InfoCluster.put engines cacheException RULES_VERSION old fr with
          | .ok _ fr => .error (.runtimeException e) fr
          | .error e fr => .error e fr := by
  have hrun : executeTokensWith (InfoCluster.put engines cacheException) releaseId g a version
      ⟨c, []⟩ = _ := executeTokensWith_same _ hgroup hartifact
  refine hrun.trans ?_
  cases InfoCluster.put engines cacheException RULES_VERSION version ⟨c, []⟩ with
  | ok _ fr => rfl
  | error e fr =>
    cases c.entries RULES_VERSION with
    | none => rfl
    | some old =>
      simp only
      cases InfoCluster.put engines cacheException RULES_VERSION old fr with
      | ok _ fr' => rfl
      | error e' fr' => rfl

/-- A release id is three tokens, or is refused. -/
theorem RulesUpdateVersionImpl.execute_malformed
    (htokens : ¬∃ g a version, split 58 releaseId = [g, a, version]) :
    execute engines cacheException releaseId = throw (.illegalArgumentException
      (jstr "Illegal release id value [" ++ releaseId ++ jstr "]")) :=
  executeWith_malformed (InfoCluster.put engines cacheException) htokens

/-- A release id that does not name the cluster's rules changes nothing. -/
theorem RulesUpdateVersionImpl.execute_rejected (h : c.Agrees groupId artifactId old)
    (hsplit : ∀ version, split 58 releaseId ≠ [groupId, artifactId, version]) :
    ∃ e, execute engines cacheException releaseId ⟨c, []⟩ = .error e ⟨c, []⟩ :=
  executeWith_rejected (InfoCluster.put engines cacheException) h.group h.artifact hsplit

/-- A release id of the cluster's rules is a put of its version; when that throws, the old version
is put back. -/
theorem RulesUpdateVersionImpl.execute_accepted (h : c.Agrees groupId artifactId old)
    (hsplit : split 58 releaseId = [groupId, artifactId, target]) :
    execute engines cacheException releaseId ⟨c, []⟩ =
      match InfoCluster.put engines cacheException RULES_VERSION target ⟨c, []⟩ with
      | .ok _ fr => .ok releaseId fr
      | .error e fr =>
        match InfoCluster.put engines cacheException RULES_VERSION old fr with
        | .ok _ fr => .error (.runtimeException e) fr
        | .error e fr => .error e fr := by
  unfold execute
  rw [hsplit]
  simp only
  rw [executeTokens_same engines cacheException h.group h.artifact, h.cached]

omit [Fintype N] in
/-- A put of the version leaves the cluster agreed on it where every node runs it. -/
theorem InfoCluster.agrees_of_put {entries : JString → Option JString} {version : JString}
    (hgroup : entries RULES_GROUP_ID = some groupId)
    (hartifact : entries RULES_ARTIFACT_ID = some artifactId) (hversion : version ≠ [])
    (hentries : c.entries = Function.update entries RULES_VERSION (some version))
    (hrules : ∀ n, (c.rules n).Runs groupId artifactId version) :
    c.Agrees groupId artifactId version := by
  have hgroup' : RULES_GROUP_ID ≠ RULES_VERSION := by decide
  have hartifact' : RULES_ARTIFACT_ID ≠ RULES_VERSION := by decide
  refine ⟨?_, ?_, ?_, hversion, hrules⟩
  · rw [hentries, Function.update_of_ne hgroup', hgroup]
  · rw [hentries, Function.update_of_ne hartifact', hartifact]
  · rw [hentries, Function.update_self]

/-- A version among the tokens of a release id is not empty. -/
theorem version_ne_nil (hsplit : split 58 releaseId = [groupId, artifactId, target]) :
    target ≠ [] := by
  have hparts : split 58 releaseId = [groupId, artifactId] ++ [target] := hsplit
  exact split_last_ne_nil hparts (List.cons_ne_nil _ _)

/-- Where no node throws, the call returns, and each node is where its container has landed. -/
theorem RulesUpdateVersionImpl.execute_returns (h : c.Agrees groupId artifactId old)
    (hsplit : split 58 releaseId = [groupId, artifactId, target])
    (hthrown : ¬∃ n, ((engines n).outcome groupId artifactId old target).hasThrown = true) :
    ∃ c' : InfoCluster N,
      execute engines cacheException releaseId ⟨c, []⟩ = .ok releaseId ⟨c', []⟩ ∧
      c'.entries = Function.update c.entries RULES_VERSION (some target) ∧
      ∀ n, (c'.rules n).Runs groupId artifactId
        (((engines n).outcome groupId artifactId old target).lands old target) := by
  obtain ⟨c', hentries, hrules, hput⟩ := InfoCluster.put_version engines cacheException h.cached
    h.rules target
  rw [if_neg hthrown] at hput
  refine ⟨c', ?_, hentries, hrules⟩
  rw [execute_accepted engines cacheException h hsplit, hput]

/-- Where a node throws, the call throws, and the cluster agrees on the old version again if every
node can go back. -/
theorem RulesUpdateVersionImpl.execute_goesBack (h : c.Agrees groupId artifactId old)
    (hsplit : split 58 releaseId = [groupId, artifactId, target])
    (hthrown : ∃ n, ((engines n).outcome groupId artifactId old target).hasThrown = true) :
    ∃ e, ∃ c' : InfoCluster N,
      execute engines cacheException releaseId ⟨c, []⟩ = .error e ⟨c', []⟩ ∧
      ((∀ n, (engines n).CanGoBack groupId artifactId old target) →
        c'.Agrees groupId artifactId old) := by
  obtain ⟨c₁, hentries₁, hrules₁, hput₁⟩ := InfoCluster.put_version engines cacheException h.cached
    h.rules target
  rw [if_pos hthrown] at hput₁
  -- The second put starts where the first one has left every node.
  have hcached₁ : c₁.entries RULES_VERSION = some target := by rw [hentries₁, Function.update_self]
  obtain ⟨c₂, hentries₂, hrules₂, hput₂⟩ := InfoCluster.put_version engines cacheException hcached₁
    hrules₁ old
  have hexecute := execute_accepted engines cacheException h hsplit
  rw [hput₁] at hexecute
  simp only at hexecute
  -- It leaves every node that can go back on the old version, whether it throws or not.
  have hagrees : (∀ n, (engines n).CanGoBack groupId artifactId old target) →
      c₂.Agrees groupId artifactId old := by
    intro hback
    rw [hentries₁, Function.update_idem] at hentries₂
    refine InfoCluster.agrees_of_put h.group h.artifact h.cached_ne hentries₂ fun n => ?_
    have hrules := hrules₂ n
    rwa [(hback n).2] at hrules
  split at hput₂
  · rw [hput₂] at hexecute
    exact ⟨_, c₂, hexecute, hagrees⟩
  · rw [hput₂] at hexecute
    exact ⟨_, c₂, hexecute, hagrees⟩

/-- A put of a version that returns has run the update of every node, and all of them have returned.
-/
theorem InfoCluster.put_eq_ok {fr : Frame PEmpty (InfoCluster N)}
    (hentry : c.entries RULES_VERSION = some old)
    (h : put engines cacheException RULES_VERSION target ⟨c, []⟩ = .ok () fr) :
    fr.this.entries = Function.update c.entries RULES_VERSION (some target) ∧
      ∀ n, returned (UpdateVersionListener.updateVersion (engines n) target ⟨c.rules n, []⟩) = true ∧
        fr.this.rules n = (finalFrame
          (UpdateVersionListener.updateVersion (engines n) target ⟨c.rules n, []⟩)).this := by
  unfold put at h
  simp only [hentry, UpdateVersionListener.eventReceived_version] at h
  split at h
  · cases h
  · rename_i hall
    cases h
    refine ⟨rfl, fun n => ⟨?_, rfl⟩⟩
    by_contra hn
    exact hall ⟨n, by simpa using hn⟩

/-- A call that returns has put the version of its release id, which names the cached coordinates,
and the update of every node has returned. -/
theorem RulesUpdateVersionImpl.execute_ok {answer : JString}
    {fr : Frame PEmpty (InfoCluster N)} (hentry : c.entries RULES_VERSION = some old)
    (h : execute engines cacheException releaseId ⟨c, []⟩ = .ok answer fr) :
    ∃ g a version, split 58 releaseId = [g, a, version] ∧ c.entries RULES_GROUP_ID = some g ∧
      c.entries RULES_ARTIFACT_ID = some a ∧
      fr.this.entries = Function.update c.entries RULES_VERSION (some version) ∧
      ∀ n, returned (UpdateVersionListener.updateVersion (engines n) version ⟨c.rules n, []⟩) = true ∧
        fr.this.rules n = (finalFrame
          (UpdateVersionListener.updateVersion (engines n) version ⟨c.rules n, []⟩)).this := by
  by_cases htokens : ∃ g a version, split 58 releaseId = [g, a, version]
  · obtain ⟨g, a, version, hsplit⟩ := htokens
    unfold execute at h
    rw [hsplit] at h
    simp only at h
    by_cases hsame : c.entries RULES_GROUP_ID = some g ∧ c.entries RULES_ARTIFACT_ID = some a
    · -- The handler of the put throws, so the put has returned.
      rw [executeTokens_same engines cacheException hsame.1 hsame.2, hentry] at h
      split at h
      · rename_i fr' hput
        cases h
        obtain ⟨hentries, hrules⟩ := InfoCluster.put_eq_ok engines cacheException hentry hput
        exact ⟨g, a, version, hsplit, hsame.1, hsame.2, hentries, hrules⟩
      · simp only at h
        split at h <;> cases h
    · obtain ⟨e, hrefused⟩ := executeTokens_other engines cacheException hsame
      rw [hrefused] at h
      cases h
  · rw [execute_malformed engines cacheException htokens] at h
    cases h

/-- What `execute` promises to a cluster that agrees on its old version: a call that returns leaves
it agreed on the version that was asked for, and a call that throws leaves it agreed on the old one,
where every node can go back. -/
structure RulesUpdateVersionImpl.Promises (c : InfoCluster N)
    (groupId artifactId old releaseId : JString) : Prop where
  /-- The call returns. -/
  returns : ∀ answer fr, execute engines cacheException releaseId ⟨c, []⟩ = .ok answer fr →
    ∃ version, split 58 releaseId = [groupId, artifactId, version] ∧
      fr.this.Agrees groupId artifactId version
  /-- The call throws. -/
  throws : ∀ e fr, execute engines cacheException releaseId ⟨c, []⟩ = .error e fr →
    (∀ version, split 58 releaseId = [groupId, artifactId, version] →
      ∀ n, (engines n).CanGoBack groupId artifactId old version) →
    fr.this.Agrees groupId artifactId old

/-- Where a node throws, the call throws, and the promise is about the way back. -/
theorem RulesUpdateVersionImpl.promises_of_thrown (h : c.Agrees groupId artifactId old)
    (hsplit : split 58 releaseId = [groupId, artifactId, target])
    (hthrown : ∃ n, ((engines n).outcome groupId artifactId old target).hasThrown = true) :
    Promises engines cacheException c groupId artifactId old releaseId := by
  obtain ⟨e, c', hexecute, hback⟩ := execute_goesBack engines cacheException h hsplit hthrown
  refine ⟨fun answer fr hok => ?_, fun e' fr herror hcan => ?_⟩
  · rw [hexecute] at hok
    cases hok
  · rw [hexecute] at herror
    cases herror
    exact hback (hcan target hsplit)

/-- Where nobody throws, and whoever reports errors had no way to go, the call returns and every
node is on the new version. -/
theorem RulesUpdateVersionImpl.promises_of_returned (h : c.Agrees groupId artifactId old)
    (hsplit : split 58 releaseId = [groupId, artifactId, target])
    (hthrown : ¬∃ n, ((engines n).outcome groupId artifactId old target).hasThrown = true)
    (herrors : ∀ n, (engines n).outcome groupId artifactId old target = .errors → target = old) :
    Promises engines cacheException c groupId artifactId old releaseId := by
  obtain ⟨c', hexecute, hentries, hrules⟩ := execute_returns engines cacheException h hsplit hthrown
  refine ⟨fun answer fr hok => ⟨target, hsplit, ?_⟩, fun e fr herror => ?_⟩
  · rw [hexecute] at hok
    cases hok
    refine InfoCluster.agrees_of_put h.group h.artifact (version_ne_nil hsplit) hentries
      fun n => ?_
    have hn := hrules n
    cases houtcome : (engines n).outcome groupId artifactId old target with
    | completed =>
      rw [houtcome] at hn
      exact hn
    | errors =>
      rw [houtcome] at hn
      rw [herrors n houtcome]
      exact hn
    | threw e => exact absurd ⟨n, by rw [houtcome]; rfl⟩ hthrown
  · rw [hexecute] at herror
    cases herror

/-- A release id that is not one of the cluster's artifact changes nothing. -/
theorem RulesUpdateVersionImpl.promises_of_rejected (h : c.Agrees groupId artifactId old)
    (hsplit : ∀ version, split 58 releaseId ≠ [groupId, artifactId, version]) :
    Promises engines cacheException c groupId artifactId old releaseId := by
  obtain ⟨e, hexecute⟩ := execute_rejected engines cacheException h hsplit
  refine ⟨fun answer fr hok => ?_, fun e' fr herror _ => ?_⟩
  · rw [hexecute] at hok
    cases hok
  · rw [hexecute] at herror
    cases herror
    exact h

/-- `execute` keeps its promise exactly where some node throws, or none reports error messages on
the way to a version that is not the old one. -/
theorem RulesUpdateVersionImpl.execute_promises_iff (h : c.Agrees groupId artifactId old) :
    Promises engines cacheException c groupId artifactId old releaseId ↔
      ∀ version, split 58 releaseId = [groupId, artifactId, version] →
        (∃ n, ((engines n).outcome groupId artifactId old version).hasThrown = true) ∨
          ∀ n, (engines n).outcome groupId artifactId old version = .errors → version = old := by
  constructor
  · intro hpromises version hsplit
    by_cases hthrown : ∃ n, ((engines n).outcome groupId artifactId old version).hasThrown = true
    · exact .inl hthrown
    refine .inr fun n herrors => ?_
    -- The node with the errors is still on the old version, and the call has returned.
    obtain ⟨c', hexecute, -, hrules⟩ := execute_returns engines cacheException h hsplit hthrown
    obtain ⟨version', hsplit', hagrees⟩ := hpromises.returns _ _ hexecute
    have hversion : version' = version := by
      rw [hsplit] at hsplit'
      cases hsplit'
      rfl
    have hold := hrules n
    rw [herrors] at hold
    rw [← hversion]
    exact (hagrees.rules n).unique hold
  · intro hcondition
    by_cases htokens : ∃ version, split 58 releaseId = [groupId, artifactId, version]
    · obtain ⟨version, hsplit⟩ := htokens
      by_cases hthrown : ∃ n, ((engines n).outcome groupId artifactId old version).hasThrown = true
      · exact promises_of_thrown engines cacheException h hsplit hthrown
      · have herrors := (hcondition version hsplit).resolve_left hthrown
        exact promises_of_returned engines cacheException h hsplit hthrown herrors
    · exact promises_of_rejected engines cacheException h
        fun version hsplit => htokens ⟨version, hsplit⟩

end Cluster

/-! ## Runs -/

/-- Two nodes of the recording engine on version 1. -/
def Recorder.infoCluster : InfoCluster Bool where
  entries key :=
    if key = RULES_GROUP_ID then some (jstr "g")
    else if key = RULES_ARTIFACT_ID then some (jstr "a")
    else if key = RULES_VERSION then some (jstr "1")
    else none
  rules _ := Recorder.manager (jstr "1")

theorem Recorder.infoCluster_agrees :
    Recorder.infoCluster.Agrees (jstr "g") (jstr "a") (jstr "1") where
  group := by decide
  artifact := by decide
  cached := by decide
  cached_ne := by decide
  rules _ := ⟨rfl, rfl, rfl, rfl, rfl⟩

/-- The first node completes every update; an update of the second one away from version 1 ends as
given. -/
def secondNode (outcome : UpdateOutcome) (n : Bool) : KieEngine Reading :=
  recorder fun r target =>
    if n = true ∧ r.version = jstr "1" ∧ target.version ≠ jstr "1" then outcome else .completed

/-- A node that throws takes the cluster back to the old version. -/
theorem RulesUpdateVersionImpl.execute_promises_iff_secondThrows :
    (Promises (secondNode (.threw (.external 4))) (.external 5) Recorder.infoCluster (jstr "g")
        (jstr "a") (jstr "1") (jstr "g:a:2")) ∧
      ∃ e fr, execute (secondNode (.threw (.external 4))) (.external 5) (jstr "g:a:2")
          ⟨Recorder.infoCluster, []⟩ = .error e fr ∧
        fr.this.Agrees (jstr "g") (jstr "a") (jstr "1") := by
  have hsplit : split 58 (jstr "g:a:2") = [jstr "g", jstr "a", jstr "2"] := by decide
  have hthrown : ∃ n, ((secondNode (.threw (.external 4)) n).outcome (jstr "g") (jstr "a") (jstr "1")
      (jstr "2")).hasThrown = true := ⟨true, by decide⟩
  have hpromises := (execute_promises_iff (secondNode (.threw (.external 4))) (.external 5)
    Recorder.infoCluster_agrees).2 fun version hversion => .inl (by
      rw [hsplit] at hversion
      cases hversion
      exact hthrown)
  refine ⟨hpromises, ?_⟩
  obtain ⟨e, c', hexecute, -⟩ := execute_goesBack (secondNode (.threw (.external 4))) (.external 5)
    Recorder.infoCluster_agrees hsplit hthrown
  refine ⟨e, _, hexecute, hpromises.throws e _ hexecute fun version hversion n => ?_⟩
  rw [hsplit] at hversion
  cases hversion
  revert n
  unfold KieEngine.CanGoBack
  decide

/-- The second node reports errors and stays on version 1, and the call returns. -/
theorem RulesUpdateVersionImpl.secondReportsErrors_disagrees :
    ∃ c' : InfoCluster Bool,
      execute (secondNode .errors) (.external 5) (jstr "g:a:2") ⟨Recorder.infoCluster, []⟩ =
        .ok (jstr "g:a:2") ⟨c', []⟩ ∧
      c'.entries RULES_VERSION = some (jstr "2") ∧
      (c'.rules false).Runs (jstr "g") (jstr "a") (jstr "2") ∧
      (c'.rules true).Runs (jstr "g") (jstr "a") (jstr "1") ∧
      ¬Promises (secondNode .errors) (.external 5) Recorder.infoCluster (jstr "g") (jstr "a")
        (jstr "1") (jstr "g:a:2") := by
  have hsplit : split 58 (jstr "g:a:2") = [jstr "g", jstr "a", jstr "2"] := by decide
  obtain ⟨c', hexecute, hentries, hrules⟩ := execute_returns (secondNode .errors) (.external 5)
    Recorder.infoCluster_agrees hsplit (by decide)
  refine ⟨c', hexecute, by rw [hentries, Function.update_self], hrules false, hrules true, fun h => ?_⟩
  obtain ⟨version, hversion, hagrees⟩ := h.returns _ _ hexecute
  rw [hsplit] at hversion
  cases hversion
  have hdiffer := (hagrees.rules true).unique (hrules true)
  revert hdiffer
  decide

end Hacep
