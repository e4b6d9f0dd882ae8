import Hacep.Cluster.UpdateVersion
import Hacep.Lib.Lts

/-!
# Writes to the coordinates of running nodes

The group id and the artifact id of the rules stand in the info cache beside the version, and the
nodes that run may not be given others. `UpdateVersionListener` guards them: it throws at a write to
one of the two keys, unless the coordinate of the node's release is equal to the key. It is the
value that it means, and by the time it throws the entry has been written.

So a write to one of the two keys is refused whatever its value is, and stays in the cache. Only on
rules whose group id is the text `RULES_GROUP_ID` (or whose artifact id is `RULES_ARTIFACT_ID`) is
the guard passed, and then by every value. `protects_iff` follows this through all sequences of
writes, those of versions among them, which never move a node to other rules.
-/

namespace Hacep

open Java
open RulesManager (RULES_GROUP_ID RULES_ARTIFACT_ID RULES_VERSION)

variable {F N : Type}

/-- The two coordinates that may not change. -/
inductive Coordinate
  | groupId
  | artifactId
  deriving DecidableEq, Repr

/-- The coordinate's key in the info cache. -/
def Coordinate.key : Coordinate → JString
  | .groupId => RULES_GROUP_ID
  | .artifactId => RULES_ARTIFACT_ID

/-- Different coordinates have different keys. -/
theorem Coordinate.key_inj {a b : Coordinate} (h : a.key = b.key) : a = b := by
  revert h
  cases a <;> cases b <;> decide

/-- The version has another key. -/
theorem Coordinate.key_ne_version (coordinate : Coordinate) : coordinate.key ≠ RULES_VERSION := by
  cases coordinate <;> decide

/-- The coordinate of the rules `groupId:artifactId`. -/
def Coordinate.of (groupId artifactId : JString) : Coordinate → JString
  | .groupId => groupId
  | .artifactId => artifactId

/-- A write to one of the keys of the rules. -/
inductive CoordinateWrite
  | guarded (coordinate : Coordinate) (value : JString)
  | version (value : JString)
  deriving DecidableEq, Repr

/-- The key that is written. -/
def CoordinateWrite.key : CoordinateWrite → JString
  | .guarded coordinate _ => coordinate.key
  | .version _ => RULES_VERSION

/-- The value that is written. -/
def CoordinateWrite.value : CoordinateWrite → JString
  | .guarded _ value => value
  | .version value => value

/-- The writes that the guard treats as it should: those of versions, and those of a coordinate's
own value where the coordinate is spelled like its key. -/
def CoordinateWrite.Harmless (groupId artifactId : JString) : CoordinateWrite → Prop
  | .guarded coordinate value =>
    value = coordinate.of groupId artifactId ∧ coordinate.of groupId artifactId = coordinate.key
  | .version _ => True

instance (groupId artifactId : JString) (write : CoordinateWrite) :
    Decidable (write.Harmless groupId artifactId) := by
  cases write with
  | guarded coordinate value =>
    exact inferInstanceAs (Decidable (value = _ ∧ coordinate.of groupId artifactId = _))
  | version value => exact isTrue trivial

/-- The cached group id and artifact id are those of the release that each node runs. -/
def InfoCluster.Coordinated (c : InfoCluster N) : Prop :=
  ∀ n, ∃ r, (c.rules n).getReleaseId = .ok r ∧ c.entries RULES_GROUP_ID = some r.groupId ∧
    c.entries RULES_ARTIFACT_ID = some r.artifactId

/-- All nodes run the rules `groupId:artifactId`, in any version, and these are cached. -/
structure InfoCluster.RunsRules (c : InfoCluster N) (groupId artifactId : JString) : Prop where
  /-- What is cached for a coordinate. -/
  cached : ∀ coordinate : Coordinate,
    c.entries coordinate.key = some (coordinate.of groupId artifactId)
  /-- What the nodes run. -/
  rules : ∀ n, ∃ version, (c.rules n).Runs groupId artifactId version

section Node

variable {E : KieEngine F} {rm : RulesManager} {groupId artifactId version value : JString}

/-- A running node reports the coordinates of its rules. -/
theorem RulesManager.Runs.getReleaseId (h : rm.Runs groupId artifactId version) :
    rm.getReleaseId = .ok ⟨groupId, artifactId, version⟩ :=
  h.running.getReleaseId

/-- The comparison for another key. -/
theorem UpdateVersionListener.differsFrom_of_ne {name key : JString} (h : name ≠ key)
    (coordinate : ReleaseId → JString) : differsFrom rm name key coordinate = .ok false :=
  if_neg h

/-- The comparison for the coordinate's own key. -/
theorem UpdateVersionListener.differsFrom_self (h : rm.Runs groupId artifactId version)
    (name : JString) (coordinate : ReleaseId → JString) :
    differsFrom rm name name coordinate =
      .ok (coordinate ⟨groupId, artifactId, version⟩ != name) := by
  rw [differsFrom, if_pos rfl, h.getReleaseId]
  rfl

/-- The guard looks at the node's coordinate and at the key, and not at the value. -/
theorem UpdateVersionListener.eventReceived_coordinate (h : rm.Runs groupId artifactId version)
    (coordinate : Coordinate) :
    eventReceived E coordinate.key value ⟨rm, []⟩ =
      if coordinate.of groupId artifactId = coordinate.key then .ok () ⟨rm, []⟩
      else .error (.illegalStateException
        (jstr "Cannot change rules artifact or group id to [" ++ coordinate.key ++ jstr "]."))
          ⟨rm, []⟩ := by
  -- For either key the comparison for the other one is skipped, and no version is updated.
  have hguard : eventReceived E coordinate.key value ⟨rm, []⟩ =
      (if coordinate.of groupId artifactId != coordinate.key then throw (.illegalStateException
        (jstr "Cannot change rules artifact or group id to [" ++ coordinate.key ++ jstr "]."))
      else pure () : Method PEmpty RulesManager Unit) ⟨rm, []⟩ := by
    unfold eventReceived
    rw [bind_of_ok this_run]
    cases coordinate with
    | groupId =>
      have hartifact : RULES_ARTIFACT_ID ≠ RULES_GROUP_ID := by decide
      have hversion : (RULES_GROUP_ID == RULES_VERSION) = false := by decide
      simp only [Coordinate.key, differsFrom_of_ne hartifact, differsFrom_self h]
      rw [bind_of_ok (lift_ok _), if_neg Bool.false_ne_true, bind_of_ok (lift_ok _), Bool.false_or,
        hversion]
      rfl
    | artifactId =>
      have hgroup : RULES_GROUP_ID ≠ RULES_ARTIFACT_ID := by decide
      have hversion : (RULES_ARTIFACT_ID == RULES_VERSION) = false := by decide
      simp only [Coordinate.key, differsFrom_of_ne hgroup, differsFrom_self h, ite_self]
      rw [bind_of_ok (lift_ok _), bind_of_ok (lift_ok _), Bool.or_false, hversion]
      rfl
  rw [hguard]
  by_cases heq : coordinate.of groupId artifactId = coordinate.key
  · rw [if_pos heq, heq, bne_self_eq_false, if_neg Bool.false_ne_true]
    rfl
  · rw [if_neg heq, if_pos (bne_iff_ne.2 heq)]
    rfl

/-- A version that is written never moves a node to other rules. -/
theorem UpdateVersionListener.eventReceived_version_runs (h : rm.Runs groupId artifactId version)
    (value : JString) :
    ∃ version', (finalFrame (eventReceived E RULES_VERSION value ⟨rm, []⟩)).this.Runs groupId
      artifactId version' := by
  rw [eventReceived_version]
  exact ⟨_, (updateVersion_run h value).2⟩

end Node

section Cluster

variable [Fintype N] (engines : N → KieEngine F) (cacheException : Throwable) {c : InfoCluster N}
  {groupId artifactId value : JString}

/-- The info cache and the nodes through a sequence of writes, whether these return or throw. -/
def CoordinateWrite.writes : Lts (InfoCluster N) CoordinateWrite where
  step c write :=
    some (finalFrame (InfoCluster.put engines cacheException write.key write.value ⟨c, []⟩)).this

/-- One write is dealt with as it should be: one of a guarded key is refused exactly when the value
is not the coordinate that the nodes run, and the cached coordinates are those of the nodes after
it. -/
structure InfoCluster.Protects (groupId artifactId : JString) (c : InfoCluster N)
    (write : CoordinateWrite) : Prop where
  /-- Which writes are refused. -/
  refused : ∀ coordinate value, write = .guarded coordinate value →
    (returned (put engines cacheException write.key write.value ⟨c, []⟩) = false ↔
      value ≠ coordinate.of groupId artifactId)
  /-- What they leave. -/
  coordinated :
    (finalFrame (put engines cacheException write.key write.value ⟨c, []⟩)).this.Coordinated

/-- A put writes its entry, whether it returns or throws. -/
theorem InfoCluster.put_entries (key value : JString) :
    (finalFrame (put engines cacheException key value ⟨c, []⟩)).this.entries =
      Function.update c.entries key (some value) := by
  unfold put
  simp only
  split
  · rfl
  · split <;> rfl

/-- What a put leaves of a node: nothing has happened to it, or its listener has run. -/
theorem InfoCluster.put_rules (key value : JString) (n : N) :
    (finalFrame (put engines cacheException key value ⟨c, []⟩)).this.rules n = c.rules n ∨
      (finalFrame (put engines cacheException key value ⟨c, []⟩)).this.rules n =
        (finalFrame (UpdateVersionListener.eventReceived (engines n) key value
          ⟨c.rules n, []⟩)).this := by
  unfold put
  simp only
  split
  · exact .inl rfl
  · split
    · exact .inr rfl
    · exact .inr rfl

/-- No write moves a node to other rules. -/
theorem InfoCluster.RunsRules.rules_put (h : c.RunsRules groupId artifactId)
    (write : CoordinateWrite) (n : N) :
    ∃ version, ((finalFrame (put engines cacheException write.key write.value
      ⟨c, []⟩)).this.rules n).Runs groupId artifactId version := by
  obtain ⟨version, hruns⟩ := h.rules n
  obtain hrules | hrules := put_rules engines cacheException (c := c) write.key write.value n
  · rw [hrules]
    exact ⟨version, hruns⟩
  · rw [hrules]
    cases write with
    | guarded coordinate value =>
      refine ⟨version, ?_⟩
      simp only [CoordinateWrite.key, UpdateVersionListener.eventReceived_coordinate hruns]
      split <;> exact hruns
    | version value => exact UpdateVersionListener.eventReceived_version_runs hruns value

/-- A write of a guarded key is refused where the coordinate is not spelled like its key. -/
theorem InfoCluster.RunsRules.put_guarded [Nonempty N] (h : c.RunsRules groupId artifactId)
    (coordinate : Coordinate) (value : JString) :
    returned (put engines cacheException coordinate.key value ⟨c, []⟩) = false ↔
      coordinate.of groupId artifactId ≠ coordinate.key := by
  have hlistener : ∀ n, returned (UpdateVersionListener.eventReceived (engines n) coordinate.key
      value ⟨c.rules n, []⟩) = decide (coordinate.of groupId artifactId = coordinate.key) := by
    intro n
    obtain ⟨version, hruns⟩ := h.rules n
    rw [UpdateVersionListener.eventReceived_coordinate hruns]
    split <;> simp [returned, *]
  unfold put
  simp only [h.cached coordinate, hlistener, decide_eq_false_iff_not, exists_const]
  split <;> simp [returned, *]

omit [Fintype N] in
/-- The cached coordinates of nodes that run the rules are theirs exactly when they are those of the
rules. -/
theorem InfoCluster.coordinated_iff [Nonempty N]
    (h : ∀ n, ∃ version, (c.rules n).Runs groupId artifactId version) :
    c.Coordinated ↔ ∀ coordinate : Coordinate,
      c.entries coordinate.key = some (coordinate.of groupId artifactId) := by
  constructor
  · intro hcoordinated coordinate
    obtain ⟨n⟩ := ‹Nonempty N›
    obtain ⟨version, hruns⟩ := h n
    obtain ⟨r, hr, hgroup, hartifact⟩ := hcoordinated n
    obtain rfl : _ = r := Except.ok.inj (hruns.getReleaseId.symm.trans hr)
    cases coordinate with
    | groupId => exact hgroup
    | artifactId => exact hartifact
  · intro hcached n
    obtain ⟨version, hruns⟩ := h n
    exact ⟨_, hruns.getReleaseId, hcached .groupId, hcached .artifactId⟩

/-- After a write to nodes that run the cached rules, the cached coordinates are theirs unless the
write has replaced one. -/
theorem InfoCluster.RunsRules.coordinated_put [Nonempty N] (h : c.RunsRules groupId artifactId)
    (write : CoordinateWrite) :
    (finalFrame (put engines cacheException write.key write.value ⟨c, []⟩)).this.Coordinated ↔
      ∀ coordinate value, write = .guarded coordinate value →
        value = coordinate.of groupId artifactId := by
  rw [coordinated_iff (h.rules_put engines cacheException write), put_entries]
  constructor
  · rintro hcached coordinate value rfl
    have := hcached coordinate
    rw [CoordinateWrite.key, Function.update_self] at this
    exact Option.some.inj this
  · intro hvalue coordinate
    by_cases hkey : coordinate.key = write.key
    · cases write with
      | guarded coordinate' value =>
        have hsame : coordinate = coordinate' := Coordinate.key_inj hkey
        rw [hsame, CoordinateWrite.key, Function.update_self, CoordinateWrite.value,
          hvalue coordinate' value rfl]
      | version value => exact absurd hkey coordinate.key_ne_version
    · rw [Function.update_of_ne hkey, h.cached coordinate]

/-- One write to nodes that run the cached rules is dealt with as it should be exactly when it is
harmless, and then they still run the cached rules. -/
theorem InfoCluster.RunsRules.protects_iff_harmless [Nonempty N]
    (h : c.RunsRules groupId artifactId) (write : CoordinateWrite) :
    Protects engines cacheException groupId artifactId c write ↔
      write.Harmless groupId artifactId := by
  have hcoordinated := h.coordinated_put engines cacheException write
  constructor
  · intro hprotects
    cases write with
    | guarded coordinate value =>
      have hvalue := hcoordinated.1 hprotects.coordinated coordinate value rfl
      have hrefused := hprotects.refused coordinate value rfl
      rw [CoordinateWrite.key, h.put_guarded engines cacheException] at hrefused
      exact ⟨hvalue, not_not.1 fun hne => hrefused.1 hne hvalue⟩
    | version value => trivial
  · intro hharmless
    refine ⟨?_, hcoordinated.2 ?_⟩
    · rintro coordinate value rfl
      rw [CoordinateWrite.key, h.put_guarded engines cacheException]
      exact iff_of_false (not_not.2 hharmless.2) (not_not.2 hharmless.1)
    · rintro coordinate value rfl
      exact hharmless.1

/-- In a sequence of writes to nodes that run the cached rules, every write of a group id or an
artifact id is refused exactly when it should be, and the cached ones stay those of the nodes, if
and only if all writes are harmless. -/
theorem InfoCluster.protects_iff [Nonempty N] (writes : List CoordinateWrite) :
    ∀ {c : InfoCluster N}, c.RunsRules groupId artifactId →
      ((CoordinateWrite.writes engines cacheException).Guarded
          (Protects engines cacheException groupId artifactId) c writes ↔
        ∀ write ∈ writes, write.Harmless groupId artifactId) := by
  induction writes with
  | nil => exact fun _ => iff_of_true trivial fun _ h => absurd h List.not_mem_nil
  | cons write writes ih =>
    intro c h
    rw [List.forall_mem_cons, Lts.Guarded, h.protects_iff_harmless engines cacheException write]
    refine and_congr_right fun hharmless => ?_
    have hnext : (finalFrame (put engines cacheException write.key write.value
        ⟨c, []⟩)).this.RunsRules groupId artifactId := by
      have hprotects := (h.protects_iff_harmless engines cacheException write).2 hharmless
      have hrules := h.rules_put engines cacheException write
      exact ⟨(coordinated_iff hrules).1 hprotects.coordinated, hrules⟩
    rw [← ih hnext]
    simp only [CoordinateWrite.writes, Option.some.injEq, forall_eq']

end Cluster

/-- The rules of the two nodes. -/
theorem Recorder.infoCluster_runsRules :
    Recorder.infoCluster.RunsRules (jstr "g") (jstr "a") where
  cached coordinate := by cases coordinate <;> decide
  rules n := ⟨_, Recorder.infoCluster_agrees.rules n⟩

/-- Versions are written, an empty one among them. -/
theorem InfoCluster.protects_iff_versions :
    (CoordinateWrite.writes (secondNode .completed) (.external 5)).Guarded
      (Protects (secondNode .completed) (.external 5) (jstr "g") (jstr "a")) Recorder.infoCluster
      [.version (jstr "2"), .version []] :=
  (protects_iff (secondNode .completed) (.external 5) _ Recorder.infoCluster_runsRules).2
    (by decide)

/-- A write of another group id is refused and stays cached, and a write of the nodes' own group id
is refused as well. -/
theorem InfoCluster.put_group_refused :
    returned (put (secondNode .completed) (.external 5) RULES_GROUP_ID (jstr "h")
        ⟨Recorder.infoCluster, []⟩) = false ∧
      (finalFrame (put (secondNode .completed) (.external 5) RULES_GROUP_ID (jstr "h")
        ⟨Recorder.infoCluster, []⟩)).this.entries RULES_GROUP_ID = some (jstr "h") ∧
      (∀ n, ((finalFrame (put (secondNode .completed) (.external 5) RULES_GROUP_ID (jstr "h")
        ⟨Recorder.infoCluster, []⟩)).this.rules n).releaseId =
          some ⟨jstr "g", jstr "a", jstr "1"⟩) ∧
      returned (put (secondNode .completed) (.external 5) RULES_GROUP_ID (jstr "g")
        ⟨Recorder.infoCluster, []⟩) = false := by
  decide +kernel

end Hacep
