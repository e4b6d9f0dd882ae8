import Hacep.Lib.Lts
import Hacep.Cluster.UpdateVersion

/-!
# The coordinates of a cluster's rules

Any number of nodes start at the same time, and share their rules through the info cache. A start
puts the group id, the artifact id and the version of its configuration, each with a `putIfAbsent`
of its own, starts its rules manager with the three old values, and registers
`UpdateVersionListener`. A start counts as returned from then on, since what is left of it does not
touch the coordinates. Nodes whose start has returned may ask for another version, at any time; the
event of that put reaches the listeners that are registered then.

Two things go wrong between the steps. A `null` among the three old values switches the check of
`RulesManager.start` off, and a node that is the first to put any one of its coordinates gets one,
so nodes can start with different artifacts: `oneArtifact_iff` says that this is the only way. A
version that is put between a node's `putIfAbsent` and its listener does not reach the node, and
neither does one that the node's container reports errors for: `current_iff` says that a node is on
the cached version throughout a run exactly when neither happens.
-/

namespace Hacep

open Java
open RulesManager (RULES_GROUP_ID RULES_ARTIFACT_ID RULES_VERSION)

variable {N F : Type}

/-- `putIfAbsent`, which returns the old value: what it makes of the cache. -/
def putIfAbsent (entries : JString → Option JString) (key value : JString) :
    JString → Option JString :=
  match entries key with
  | some _ => entries
  | none => Function.update entries key (some value)

/-- Where a start is, as far as the coordinates go. -/
inductive StartPc
  | putGroupId
  | putArtifactId
  | putVersion
  | startRulesManager
  | addListener
  /-- The listener is registered; what is left of the start does not touch the coordinates. -/
  | returned
  | failed
  deriving DecidableEq, Repr

/-- A node that starts: its rules manager, and the old values that the three `putIfAbsent` have
returned. -/
structure StartingNode where
  pc : StartPc := .putGroupId
  rulesManager : RulesManager
  groupId : Option JString := none
  artifactId : Option JString := none
  version : Option JString := none

namespace StartingNode

/-- `new RulesManager(rulesConfiguration)`, and the start begins. -/
def fresh (c : RulesConfiguration) : StartingNode := { rulesManager := { rulesConfiguration := c } }

/-- The listener is registered. -/
def listens (n : StartingNode) : Bool := n.pc == .returned

/-- `RulesManager.start` has returned. -/
def hasRules (n : StartingNode) : Bool := n.pc == .addListener || n.pc == .returned

/-- One of the old values is `null` or empty, which switches the check of `RulesManager.start` off.
-/
def skipsCheck (E : KieEngine F) (n : StartingNode) : Bool :=
  E.isEmpty (n.groupId.getD []) || E.isEmpty (n.artifactId.getD []) || E.isEmpty (n.version.getD [])

/-- The version that `RulesManager.start` is to start: the cached one, or that of the configuration
where there was none. -/
def asked (E : KieEngine F) (n : StartingNode) : JString :=
  if E.isEmpty (n.version.getD []) then n.rulesManager.rulesConfiguration.version
  else n.version.getD []

end StartingNode

/-- The info cache and the nodes. -/
structure Coordinates (N : Type) where
  entries : JString → Option JString := fun _ => none
  nodes : N → StartingNode

namespace Coordinates

/-- What happens in the cluster. -/
inductive Action (N : Type)
  /-- The next step of a node's start. -/
  | start (node : N)
  /-- `RulesUpdateVersionImpl.execute` on a node, which returns. -/
  | execute (node : N) (releaseId : JString)

/-- No node has begun its start, and the cache is empty. -/
def fresh (configurations : N → RulesConfiguration) : Coordinates N :=
  { nodes := fun n => .fresh (configurations n) }

/-- The cache and the rules managers that an event reaches. -/
def infoCluster (s : Coordinates N) : InfoCluster {n // (s.nodes n).listens = true} where
  entries := s.entries
  rules n := (s.nodes n).rulesManager

section Lts

variable [DecidableEq N]

/-- A change of the cache and of one node. -/
def set (s : Coordinates N) (n : N) (entries : JString → Option JString) (node : StartingNode) :
    Coordinates N :=
  { entries := entries, nodes := Function.update s.nodes n node }

/-- A step of a node's start. -/
def start (engines : N → KieEngine F) (s : Coordinates N) (n : N) : Option (Coordinates N) :=
  let node := s.nodes n
  let c := node.rulesManager.rulesConfiguration
  match node.pc with
  | .putGroupId => some (s.set n (putIfAbsent s.entries RULES_GROUP_ID c.groupId)
      { node with pc := .putArtifactId, groupId := s.entries RULES_GROUP_ID })
  | .putArtifactId => some (s.set n (putIfAbsent s.entries RULES_ARTIFACT_ID c.artifactId)
      { node with pc := .putVersion, artifactId := s.entries RULES_ARTIFACT_ID })
  | .putVersion => some (s.set n (putIfAbsent s.entries RULES_VERSION c.version)
      { node with pc := .startRulesManager, version := s.entries RULES_VERSION })
  | .startRulesManager =>
    match RulesManager.start (engines n) node.groupId node.artifactId node.version
        ⟨node.rulesManager, []⟩ with
    | .ok _ fr => some (s.set n s.entries { node with pc := .addListener, rulesManager := fr.this })
    | .error _ fr => some (s.set n s.entries { node with pc := .failed, rulesManager := fr.this })
  | .addListener => some (s.set n s.entries { node with pc := .returned })
  | .returned | .failed => none

/-- A call of `execute` that returns. -/
def execute [Fintype N] (engines : N → KieEngine F) (s : Coordinates N) (releaseId : JString) :
    Option (Coordinates N) :=
  -- The exception of a put that fails is of no interest here: such a call does not return.
  match RulesUpdateVersionImpl.execute (fun n : {n // (s.nodes n).listens = true} => engines n)
      (.external 0) releaseId ⟨s.infoCluster, []⟩ with
  | .ok _ fr => some { entries := fr.this.entries, nodes := fun n =>
      if h : (s.nodes n).listens = true
      then { s.nodes n with rulesManager := fr.this.rules ⟨n, h⟩ } else s.nodes n }
  | .error _ _ => none

/-- The cluster, step by step. -/
def lts [Fintype N] (engines : N → KieEngine F) : Lts (Coordinates N) (Action N) where
  step s
    | .start n => s.start engines n
    | .execute n releaseId =>
      if (s.nodes n).listens then s.execute engines releaseId else none

end Lts

end Coordinates

/-! ## Between two steps -/

section PutIfAbsent

variable {entries : JString → Option JString} {key key' value value' : JString}

/-- A value that is there stays. -/
theorem putIfAbsent_of_some (h : entries key = some value) :
    putIfAbsent entries key' value' key = some value := by
  unfold putIfAbsent
  cases hkey : entries key' with
  | some _ => exact h
  | none =>
    have hne : key ≠ key' := by
      rintro rfl
      rw [h] at hkey
      cases hkey
    simp only [Function.update_of_ne hne, h]

/-- Afterwards the key has its old value, or the one that was put where it had none. -/
theorem putIfAbsent_self : putIfAbsent entries key value key = some ((entries key).getD value) := by
  unfold putIfAbsent
  cases hkey : entries key with
  | some old => exact hkey
  | none => exact Function.update_self ..

end PutIfAbsent

/-- The cached group id and artifact id stay once they are there, and so does a cached version,
whatever it is. -/
structure EntriesGrow (entries entries' : JString → Option JString) : Prop where
  group : ∀ v, entries RULES_GROUP_ID = some v → entries' RULES_GROUP_ID = some v
  artifact : ∀ v, entries RULES_ARTIFACT_ID = some v → entries' RULES_ARTIFACT_ID = some v
  version : (entries RULES_VERSION).isSome = true → (entries' RULES_VERSION).isSome = true

theorem entriesGrow_putIfAbsent (entries : JString → Option JString) (key value : JString) :
    EntriesGrow entries (putIfAbsent entries key value) := by
  refine ⟨fun _ h => putIfAbsent_of_some h, fun _ h => putIfAbsent_of_some h, fun h => ?_⟩
  obtain ⟨v, hv⟩ := Option.isSome_iff_exists.1 h
  rw [putIfAbsent_of_some hv]
  rfl

theorem entriesGrow_version (entries : JString → Option JString) (version : JString) :
    EntriesGrow entries (Function.update entries RULES_VERSION (some version)) := by
  have hgroup : RULES_GROUP_ID ≠ RULES_VERSION := by decide
  have hartifact : RULES_ARTIFACT_ID ≠ RULES_VERSION := by decide
  refine ⟨fun v h => ?_, fun v h => ?_, fun _ => ?_⟩
  · rw [Function.update_of_ne hgroup, h]
  · rw [Function.update_of_ne hartifact, h]
  · rw [Function.update_self]
    rfl

/-- The number of steps that the start has taken. -/
def StartPc.taken : StartPc → ℕ
  | .putGroupId => 0
  | .putArtifactId => 1
  | .putVersion => 2
  | .startRulesManager => 3
  | .addListener | .returned | .failed => 4

/-- What holds of a node with a configuration, and of the cache, between any two steps. -/
structure StartingNode.Inv (E : KieEngine F) (c : RulesConfiguration)
    (entries : JString → Option JString) (n : StartingNode) : Prop where
  configuration : n.rulesManager.rulesConfiguration = c
  unstarted : n.pc.taken < 4 → n.rulesManager.started = false
  /-- The group id is cached, and an old value is the cached one. -/
  group : 0 < n.pc.taken → ∃ g, entries RULES_GROUP_ID = some g ∧ ∀ g', n.groupId = some g' → g' = g
  /-- The same for the artifact id. -/
  artifact : 1 < n.pc.taken →
    ∃ a, entries RULES_ARTIFACT_ID = some a ∧ ∀ a', n.artifactId = some a' → a' = a
  version : 2 < n.pc.taken → (entries RULES_VERSION).isSome = true
  /-- The node runs its own rules, on some version. -/
  rules : n.hasRules = true → ∃ v, n.rulesManager.Runs c.groupId c.artifactId v
  /-- At first it runs the version that it was to start. -/
  asked : n.pc = .addListener → n.rulesManager.Runs c.groupId c.artifactId (n.asked E)

namespace StartingNode

variable {E : KieEngine F} {c : RulesConfiguration} {entries entries' : JString → Option JString}
  {n : StartingNode}

/-- What others write to the cache leaves the invariant of a node. -/
theorem Inv.grow (h : Inv E c entries n) (hgrow : EntriesGrow entries entries') :
    Inv E c entries' n := by
  refine { h with group := fun hpc => ?_, artifact := fun hpc => ?_, version := fun hpc => ?_ }
  · obtain ⟨g, hg, hold⟩ := h.group hpc
    exact ⟨g, hgrow.group g hg, hold⟩
  · obtain ⟨a, ha, hold⟩ := h.artifact hpc
    exact ⟨a, hgrow.artifact a ha, hold⟩
  · exact hgrow.version (h.version hpc)

/-- The check of the rules manager is passed when one of the old values is missing, or when the
coordinates are those of the configuration. -/
theorem Inv.checkCoordinates_iff (h : Inv E c entries n) (hpc : n.pc = .startRulesManager) {g a : JString}
    (hg : entries RULES_GROUP_ID = some g) (ha : entries RULES_ARTIFACT_ID = some a) :
    n.rulesManager.checkCoordinates E (n.groupId.getD []) (n.artifactId.getD []) (n.version.getD []) =
        .ok () ↔ n.skipsCheck E = true ∨ c.groupId = g ∧ c.artifactId = a := by
  unfold RulesManager.checkCoordinates
  rw [h.configuration]
  cases hskip : n.skipsCheck E with
  | true =>
    unfold skipsCheck at hskip
    simp only [hskip, Bool.not_true, Bool.false_and, Bool.false_eq_true, if_false, true_or]
  | false =>
    -- No old value is missing, so they are the cached ones.
    have hgroup : n.groupId.getD [] = g := by
      cases hn : n.groupId with
      | none => simp [skipsCheck, hn, E.isEmpty_nil] at hskip
      | some g' =>
        obtain ⟨g₀, hg₀, hold⟩ := h.group (by rw [hpc]; decide)
        rw [hg, Option.some.injEq] at hg₀
        exact (hold g' hn).trans hg₀.symm
    have hartifact : n.artifactId.getD [] = a := by
      cases hn : n.artifactId with
      | none => simp [skipsCheck, hn, E.isEmpty_nil] at hskip
      | some a' =>
        obtain ⟨a₀, ha₀, hold⟩ := h.artifact (by rw [hpc]; decide)
        rw [ha, Option.some.injEq] at ha₀
        exact (hold a' hn).trans ha₀.symm
    unfold skipsCheck at hskip
    rw [hgroup, hartifact] at hskip ⊢
    simp only [hskip, Bool.not_false, Bool.true_and, Bool.false_eq_true, false_or]
    by_cases hc : c.groupId = g ∧ c.artifactId = a
    · simp [hc.1, hc.2]
    · have hne : (c.groupId != g || c.artifactId != a) = true := by
        simp only [Bool.or_eq_true, bne_iff_ne]
        by_contra hboth
        push Not at hboth
        exact hc hboth
      simp [hne, hc]

/-- The rules manager starts when the check is passed and the release can be resolved, and then it
runs the node's own rules on the version that was asked for. -/
theorem Inv.start_rulesManager (h : Inv E c entries n) (hpc : n.pc = .startRulesManager) :
    ((∃ fr, RulesManager.start E n.groupId n.artifactId n.version ⟨n.rulesManager, []⟩ = .ok () fr) ↔
      n.rulesManager.checkCoordinates E (n.groupId.getD []) (n.artifactId.getD [])
          (n.version.getD []) = .ok () ∧
        (E.newKieContainer ⟨c.groupId, c.artifactId, n.asked E⟩).isOk = true) ∧
    ∀ fr, RulesManager.start E n.groupId n.artifactId n.version ⟨n.rulesManager, []⟩ = .ok () fr →
      fr.this.rulesConfiguration = c ∧ fr.this.Runs c.groupId c.artifactId (n.asked E) := by
  have h0 : n.rulesManager.started = false := h.unstarted (by rw [hpc]; decide)
  have hrelease : n.rulesManager.newReleaseId (n.asked E) = ⟨c.groupId, c.artifactId, n.asked E⟩ := by
    rw [RulesManager.newReleaseId, h.configuration]
  have hreturns := RulesManager.start_returns_iff (E := E) (g := n.groupId) (a := n.artifactId)
    (v := n.version) h0
  refine ⟨?_, fun fr hstart => ?_⟩
  · rw [hreturns, ← hrelease]
    rfl
  · have hconfiguration : fr.this.rulesConfiguration = c :=
      (RulesManager.keeps_start c n.groupId n.artifactId n.version).ok hstart h.configuration
    refine ⟨hconfiguration, by rw [hconfiguration], by rw [hconfiguration], ?_⟩
    rw [← hrelease]
    refine RulesManager.start_running ?_ hstart
    exact h0

/-! The steps of a start, one by one. -/

theorem Inv.putGroupId (h : Inv E c entries n) (hpc : n.pc = .putGroupId) (value : JString) :
    Inv E c (putIfAbsent entries RULES_GROUP_ID value)
      { n with pc := .putArtifactId, groupId := entries RULES_GROUP_ID } where
  configuration := h.configuration
  unstarted _ := h.unstarted (by rw [hpc]; decide)
  group _ := by
    refine ⟨_, putIfAbsent_self, fun g' hg' => ?_⟩
    simp only at hg'
    rw [hg', Option.getD_some]
  artifact hlt := absurd hlt (by simp [StartPc.taken])
  version hlt := absurd hlt (by simp [StartPc.taken])
  rules hrules := absurd hrules (by simp [hasRules])
  asked hadd := absurd hadd (by simp)

theorem Inv.putArtifactId (h : Inv E c entries n) (hpc : n.pc = .putArtifactId) (value : JString) :
    Inv E c (putIfAbsent entries RULES_ARTIFACT_ID value)
      { n with pc := .putVersion, artifactId := entries RULES_ARTIFACT_ID } where
  configuration := h.configuration
  unstarted _ := h.unstarted (by rw [hpc]; decide)
  group _ := (h.grow (entriesGrow_putIfAbsent entries _ value)).group (by rw [hpc]; decide)
  artifact _ := by
    refine ⟨_, putIfAbsent_self, fun a' ha' => ?_⟩
    simp only at ha'
    rw [ha', Option.getD_some]
  version hlt := absurd hlt (by simp [StartPc.taken])
  rules hrules := absurd hrules (by simp [hasRules])
  asked hadd := absurd hadd (by simp)

theorem Inv.putVersion (h : Inv E c entries n) (hpc : n.pc = .putVersion) (value : JString) :
    Inv E c (putIfAbsent entries RULES_VERSION value)
      { n with pc := .startRulesManager, version := entries RULES_VERSION } where
  configuration := h.configuration
  unstarted _ := h.unstarted (by rw [hpc]; decide)
  group _ := (h.grow (entriesGrow_putIfAbsent entries _ value)).group (by rw [hpc]; decide)
  artifact _ := (h.grow (entriesGrow_putIfAbsent entries _ value)).artifact (by rw [hpc]; decide)
  version _ := by
    rw [putIfAbsent_self]
    rfl
  rules hrules := absurd hrules (by simp [hasRules])
  asked hadd := absurd hadd (by simp)

/-- `RulesManager.start` returns: the node runs the version that it asked for. -/
theorem Inv.started (h : Inv E c entries n) (hpc : n.pc = .startRulesManager)
    {fr : Frame PEmpty RulesManager}
    (hstart : RulesManager.start E n.groupId n.artifactId n.version ⟨n.rulesManager, []⟩ = .ok () fr) :
    Inv E c entries { n with pc := .addListener, rulesManager := fr.this } := by
  obtain ⟨hconfiguration, hruns⟩ := (h.start_rulesManager hpc).2 fr hstart
  -- What the node asks for is read from its configuration, which has not changed.
  have hasked : StartingNode.asked E { n with pc := .addListener, rulesManager := fr.this } =
      n.asked E := by
    unfold StartingNode.asked
    rw [hconfiguration, h.configuration]
  exact {
    configuration := hconfiguration
    unstarted := fun hlt => absurd hlt (by simp [StartPc.taken])
    group := fun _ => h.group (by rw [hpc]; decide)
    artifact := fun _ => h.artifact (by rw [hpc]; decide)
    version := fun _ => h.version (by rw [hpc]; decide)
    rules := fun _ => ⟨_, hruns⟩
    asked := fun _ => hasked ▸ hruns }

/-- `RulesManager.start` throws, and the node is out. -/
theorem Inv.failed (h : Inv E c entries n) (hpc : n.pc = .startRulesManager)
    {e : Throwable} {fr : Frame PEmpty RulesManager}
    (hstart : RulesManager.start E n.groupId n.artifactId n.version ⟨n.rulesManager, []⟩ =
      .error e fr) :
    Inv E c entries { n with pc := .failed, rulesManager := fr.this } where
  configuration :=
    (RulesManager.keeps_start c n.groupId n.artifactId n.version).error hstart h.configuration
  unstarted hlt := absurd hlt (by simp [StartPc.taken])
  group _ := h.group (by rw [hpc]; decide)
  artifact _ := h.artifact (by rw [hpc]; decide)
  version _ := h.version (by rw [hpc]; decide)
  rules hrules := absurd hrules (by simp [hasRules])
  asked hadd := absurd hadd (by simp)

theorem Inv.addListener (h : Inv E c entries n) (hpc : n.pc = .addListener) :
    Inv E c entries { n with pc := .returned } where
  configuration := h.configuration
  unstarted hlt := absurd hlt (by simp [StartPc.taken])
  group _ := h.group (by rw [hpc]; decide)
  artifact _ := h.artifact (by rw [hpc]; decide)
  version _ := h.version (by rw [hpc]; decide)
  rules _ := ⟨_, h.asked hpc⟩
  asked hadd := absurd hadd (by simp)

end StartingNode

namespace Coordinates

variable {configurations : N → RulesConfiguration} {engines : N → KieEngine F}
  {s s' : Coordinates N} {n : N}

/-- The invariant of every node. -/
def Inv (engines : N → KieEngine F) (configurations : N → RulesConfiguration) (s : Coordinates N) :
    Prop :=
  ∀ n, (s.nodes n).Inv (engines n) (configurations n) s.entries

theorem inv_fresh (engines : N → KieEngine F) (configurations : N → RulesConfiguration) :
    Inv engines configurations (fresh configurations) :=
  fun _ => ⟨rfl, fun _ => rfl, fun h => (nomatch h), fun h => (nomatch h), fun h => (nomatch h),
    fun h => (nomatch h), fun h => (nomatch h)⟩

variable [DecidableEq N]

/-- A step of a start keeps what is in the cache and leaves the other nodes alone. -/
theorem start_frame (h : s.start engines n = some s') :
    (∀ key v, s.entries key = some v → s'.entries key = some v) ∧
      ∀ m, m ≠ n → s'.nodes m = s.nodes m := by
  have hset : ∀ entries node, ∀ m, m ≠ n → (s.set n entries node).nodes m = s.nodes m :=
    fun entries node m hne => Function.update_of_ne hne ..
  unfold start at h
  cases hpc : (s.nodes n).pc with
  | putGroupId | putArtifactId | putVersion =>
    simp only [hpc, Option.some.injEq] at h
    subst h
    exact ⟨fun _ _ h => putIfAbsent_of_some h, hset _ _⟩
  | startRulesManager =>
    simp only [hpc] at h
    split at h <;> cases h
    · exact ⟨fun _ _ h => h, hset _ _⟩
    · exact ⟨fun _ _ h => h, hset _ _⟩
  | addListener =>
    simp only [hpc, Option.some.injEq] at h
    subst h
    exact ⟨fun _ _ h => h, hset _ _⟩
  | returned | failed => simp only [hpc, reduceCtorEq] at h

/-- A step of a start lets the cache grow. -/
theorem start_grow (h : s.start engines n = some s') : EntriesGrow s.entries s'.entries := by
  obtain ⟨hkeeps, -⟩ := start_frame h
  refine ⟨hkeeps _, hkeeps _, fun hsome => ?_⟩
  obtain ⟨v, hv⟩ := Option.isSome_iff_exists.1 hsome
  rw [hkeeps _ v hv]
  rfl

/-- A step of a start keeps the invariant of its node. -/
theorem start_inv (hi : Inv engines configurations s) (h : s.start engines n = some s') :
    (s'.nodes n).Inv (engines n) (configurations n) s'.entries := by
  have hn := hi n
  have hself : ∀ entries node, (s.set n entries node).nodes n = node :=
    fun entries node => Function.update_self ..
  unfold start at h
  cases hpc : (s.nodes n).pc with
  | putGroupId =>
    simp only [hpc, Option.some.injEq] at h
    subst h
    rw [hself]
    exact hn.putGroupId hpc _
  | putArtifactId =>
    simp only [hpc, Option.some.injEq] at h
    subst h
    rw [hself]
    exact hn.putArtifactId hpc _
  | putVersion =>
    simp only [hpc, Option.some.injEq] at h
    subst h
    rw [hself]
    exact hn.putVersion hpc _
  | startRulesManager =>
    simp only [hpc] at h
    split at h
    -- `RulesManager.start` returns, or it throws.
    · rename_i fr hstart
      cases h
      rw [hself]
      exact hn.started hpc hstart
    · rename_i e fr hstart
      cases h
      rw [hself]
      exact hn.failed hpc hstart
  | addListener =>
    simp only [hpc, Option.some.injEq] at h
    subst h
    rw [hself]
    exact hn.addListener hpc
  | returned | failed => simp only [hpc, reduceCtorEq] at h

variable [Fintype N] {a : Action N} {releaseId : JString}

omit [DecidableEq N] in
/-- A call of `execute` that returns puts the version of its release id, and updates the rules
manager of every node that listens. -/
theorem execute_spec (hentry : (s.entries RULES_VERSION).isSome = true)
    (h : s.execute engines releaseId = some s') :
    ∃ g a version, split 58 releaseId = [g, a, version] ∧
      s'.entries = Function.update s.entries RULES_VERSION (some version) ∧
      ∀ n, if (s.nodes n).listens = true then
          returned (UpdateVersionListener.updateVersion (engines n) version
              ⟨(s.nodes n).rulesManager, []⟩) = true ∧
            s'.nodes n = { s.nodes n with rulesManager := (finalFrame
              (UpdateVersionListener.updateVersion (engines n) version
                ⟨(s.nodes n).rulesManager, []⟩)).this }
        else s'.nodes n = s.nodes n := by
  obtain ⟨old, hold⟩ := Option.isSome_iff_exists.1 hentry
  unfold execute at h
  split at h
  · rename_i answer fr hexecute
    cases h
    obtain ⟨g, a, version, hsplit, -, -, hentries, hrules⟩ :=
      RulesUpdateVersionImpl.execute_ok (c := s.infoCluster) _ _ hold hexecute
    refine ⟨g, a, version, hsplit, hentries, fun n => ?_⟩
    split
    · rename_i hlistens
      obtain ⟨hreturned, hrule⟩ := hrules ⟨n, hlistens⟩
      refine ⟨hreturned, ?_⟩
      simp only [hlistens, dif_pos, hrule]
      rfl
    · rename_i hlistens
      exact dif_neg hlistens
  · cases h

/-- The update of a node keeps its configuration. -/
theorem keeps_updateVersion (c : RulesConfiguration) (E : KieEngine F) (version : JString) :
    Keeps (fun rm => rm.rulesConfiguration = c) (UpdateVersionListener.updateVersion E version) := by
  refine Keeps.this_bind fun rm hrm => Keeps.lift_bind fun result hresult => .modifyThis fun _ _ => ?_
  exact (RulesManager.updateToVersion_configuration hresult).trans hrm

omit [DecidableEq N] in
/-- A call of `execute` that returns keeps the invariant. -/
theorem execute_inv (hi : Inv engines configurations s) (hentry : (s.entries RULES_VERSION).isSome = true)
    (h : s.execute engines releaseId = some s') : Inv engines configurations s' := by
  obtain ⟨g, a, version, hsplit, hentries, hnodes⟩ := execute_spec hentry h
  intro n
  have hgrown := (hi n).grow (entriesGrow_version s.entries version)
  rw [← hentries] at hgrown
  have hnode := hnodes n
  split at hnode
  · rename_i hlistens
    obtain ⟨hreturned, hnode⟩ := hnode
    have hpc : (s.nodes n).pc = .returned := by simpa [StartingNode.listens] using hlistens
    obtain ⟨old, hruns⟩ := (hi n).rules (by simp [StartingNode.hasRules, hpc])
    have hrun := (UpdateVersionListener.updateVersion_run (E := engines n) hruns version).2
    rw [hnode]
    refine ⟨keeps_updateVersion _ _ _ _ (hi n).configuration, fun h => absurd h ?_, hgrown.group,
      hgrown.artifact, hgrown.version, fun _ => ⟨_, hrun⟩, fun h => absurd h ?_⟩
    · simp [hpc, StartPc.taken]
    · simp [hpc]
  · rw [hnode]
    exact hgrown

/-- Every step keeps the invariant. -/
theorem Inv.step (hi : Inv engines configurations s) (h : (lts engines).step s a = some s') :
    Inv engines configurations s' := by
  cases a with
  | start n =>
    obtain ⟨-, hothers⟩ := start_frame h
    have hgrow := start_grow h
    intro m
    by_cases hm : m = n
    · subst hm
      exact start_inv hi h
    · rw [hothers m hm]
      exact (hi m).grow hgrow
  | execute n releaseId =>
    simp only [lts, Option.ite_none_right_eq_some] at h
    obtain ⟨hlistens, h⟩ := h
    have hpc : (s.nodes n).pc = .returned := by simpa [StartingNode.listens] using hlistens
    exact execute_inv hi ((hi n).version (by rw [hpc]; decide)) h

/-! ## One artifact -/

/-- The nodes whose rules manager has started run the rules of one artifact, the cached one. -/
structure OneArtifact (s : Coordinates N) : Prop where
  /-- Any two of them run the same artifact. -/
  same : ∀ n m r r', (s.nodes n).hasRules = true → (s.nodes m).hasRules = true →
    (s.nodes n).rulesManager.releaseId = some r → (s.nodes m).rulesManager.releaseId = some r' →
    r.groupId = r'.groupId ∧ r.artifactId = r'.artifactId
  /-- It is the cached one. -/
  cached : ∀ n, (s.nodes n).hasRules = true →
    ∃ r, (s.nodes n).rulesManager.releaseId = some r ∧
      s.entries RULES_GROUP_ID = some r.groupId ∧ s.entries RULES_ARTIFACT_ID = some r.artifactId

/-- The configuration of a node has the cached group id and artifact id. -/
def isConfigured (s : Coordinates N) (n : N) : Bool :=
  s.entries RULES_GROUP_ID == some (s.nodes n).rulesManager.rulesConfiguration.groupId &&
    s.entries RULES_ARTIFACT_ID == some (s.nodes n).rulesManager.rulesConfiguration.artifactId

/-- A rules manager that starts without the check, on a release that can be resolved, is configured
for the cached artifact. -/
def Spares (engines : N → KieEngine F) (s : Coordinates N) : Action N → Bool
  | .start n =>
    let node := s.nodes n
    let c := node.rulesManager.rulesConfiguration
    !(node.pc == .startRulesManager && node.skipsCheck (engines n) &&
        ((engines n).newKieContainer ⟨c.groupId, c.artifactId, node.asked (engines n)⟩).isOk) ||
      s.isConfigured n
  | .execute _ _ => true

omit [DecidableEq N] [Fintype N] in
theorem Inv.isConfigured_iff (hi : Inv engines configurations s) :
    s.isConfigured n = true ↔ s.entries RULES_GROUP_ID = some (configurations n).groupId ∧
      s.entries RULES_ARTIFACT_ID = some (configurations n).artifactId := by
  unfold isConfigured
  rw [(hi n).configuration, Bool.and_eq_true, beq_iff_eq, beq_iff_eq]

omit [DecidableEq N] [Fintype N] in
/-- The rules that run are those of one artifact when every node that runs some is configured for
the cached ones. -/
theorem Inv.oneArtifact_iff_configured (hi : Inv engines configurations s) :
    s.OneArtifact ↔ ∀ n, (s.nodes n).hasRules = true → s.isConfigured n = true := by
  have hrelease : ∀ n, (s.nodes n).hasRules = true → ∃ v, (s.nodes n).rulesManager.releaseId =
      some ⟨(configurations n).groupId, (configurations n).artifactId, v⟩ := by
    intro n hn
    obtain ⟨v, hruns⟩ := (hi n).rules hn
    exact ⟨v, hruns.running.releaseId⟩
  constructor
  · intro h n hn
    obtain ⟨v, hv⟩ := hrelease n hn
    obtain ⟨r, hr, hgroup, hartifact⟩ := h.cached n hn
    rw [hv, Option.some.injEq] at hr
    subst hr
    exact hi.isConfigured_iff.2 ⟨hgroup, hartifact⟩
  · intro h
    refine ⟨fun n m r r' hn hm hr hr' => ?_, fun n hn => ?_⟩
    · obtain ⟨v, hv⟩ := hrelease n hn
      obtain ⟨v', hv'⟩ := hrelease m hm
      obtain ⟨hgroup, hartifact⟩ := hi.isConfigured_iff.1 (h n hn)
      obtain ⟨hgroup', hartifact'⟩ := hi.isConfigured_iff.1 (h m hm)
      rw [hv, Option.some.injEq] at hr
      rw [hv', Option.some.injEq] at hr'
      subst hr hr'
      rw [hgroup, Option.some.injEq] at hgroup'
      rw [hartifact, Option.some.injEq] at hartifact'
      exact ⟨hgroup', hartifact'⟩
    · obtain ⟨v, hv⟩ := hrelease n hn
      exact ⟨_, hv, hi.isConfigured_iff.1 (h n hn)⟩

omit [Fintype N] in
/-- After a step of a start the node's rules manager has started when it had before, or when the
step has started it. -/
theorem start_hasRules (h : s.start engines n = some s') :
    (s'.nodes n).hasRules = true ↔ (s.nodes n).hasRules = true ∨
      (s.nodes n).pc = .startRulesManager ∧ ∃ fr, RulesManager.start (engines n) (s.nodes n).groupId
        (s.nodes n).artifactId (s.nodes n).version ⟨(s.nodes n).rulesManager, []⟩ = .ok () fr := by
  have hself : ∀ entries node, (s.set n entries node).nodes n = node :=
    fun entries node => Function.update_self ..
  unfold start at h
  cases hpc : (s.nodes n).pc with
  | putGroupId | putArtifactId | putVersion | addListener =>
    simp only [hpc, Option.some.injEq] at h
    subst h
    rw [hself]
    simp [StartingNode.hasRules, hpc]
  | startRulesManager =>
    simp only [hpc] at h
    split at h
    · rename_i fr hstart
      cases h
      rw [hself]
      exact iff_of_true rfl (.inr ⟨rfl, fr, hstart⟩)
    · rename_i e fr hstart
      cases h
      rw [hself, hstart]
      simp [StartingNode.hasRules, hpc]
  | returned | failed => simp only [hpc, reduceCtorEq] at h

omit [DecidableEq N] [Fintype N] in
/-- A node that is configured for the cached artifact stays so. -/
theorem Inv.isConfigured_grow (hi : Inv engines configurations s) (hi' : Inv engines configurations s')
    (hgrow : EntriesGrow s.entries s'.entries) (h : s.isConfigured n = true) :
    s'.isConfigured n = true := by
  obtain ⟨hgroup, hartifact⟩ := hi.isConfigured_iff.1 h
  exact hi'.isConfigured_iff.2 ⟨hgrow.group _ hgroup, hgrow.artifact _ hartifact⟩

omit [Fintype N] in
/-- The start of a rules manager starts rules that are not the cached ones exactly when it does not
spare the artifact. -/
theorem Inv.configured_start (hi : Inv engines configurations s) (hi' : Inv engines configurations s')
    (h : s.start engines n = some s') (hpc : (s.nodes n).pc = .startRulesManager) :
    ((s'.nodes n).hasRules = true → s'.isConfigured n = true) ↔
      s.Spares engines (.start n) = true := by
  have hn := hi n
  have hgrow := start_grow h
  obtain ⟨g, hg, -⟩ := hn.group (by rw [hpc]; decide)
  obtain ⟨a, ha, -⟩ := hn.artifact (by rw [hpc]; decide)
  have hconfigured : s.isConfigured n = true ↔
      (configurations n).groupId = g ∧ (configurations n).artifactId = a := by
    rw [hi.isConfigured_iff, hg, ha, Option.some.injEq, Option.some.injEq, eq_comm,
      eq_comm (a := a)]
  have hconfigured' : s'.isConfigured n = true ↔ s.isConfigured n = true := by
    rw [hconfigured, hi'.isConfigured_iff, hgrow.group g hg, hgrow.artifact a ha,
      Option.some.injEq, Option.some.injEq, eq_comm, eq_comm (a := a)]
  have hno : (s.nodes n).hasRules = false := by simp [StartingNode.hasRules, hpc]
  rw [start_hasRules h, hno, hconfigured', (hn.start_rulesManager hpc).1,
    hn.checkCoordinates_iff hpc hg ha, ← hconfigured]
  simp only [Spares, hpc, hn.configuration, beq_self_eq_true, Bool.true_and, Bool.or_eq_true,
    Bool.not_eq_true', Bool.and_eq_false_iff]
  cases (s.nodes n).skipsCheck (engines n) <;> cases s.isConfigured n <;>
    cases ((engines n).newKieContainer ⟨(configurations n).groupId, (configurations n).artifactId,
      (s.nodes n).asked (engines n)⟩).isOk <;> simp

/-- A step keeps the rules those of one artifact exactly when it spares the artifact. -/
theorem oneArtifact_step (hi : Inv engines configurations s) (hone : s.OneArtifact)
    (h : (lts engines).step s a = some s') : s'.OneArtifact ↔ s.Spares engines a = true := by
  have hi' := hi.step h
  rw [hi.oneArtifact_iff_configured] at hone
  rw [hi'.oneArtifact_iff_configured]
  cases a with
  | start n =>
    obtain ⟨-, hothers⟩ := start_frame h
    have hgrow := start_grow h
    have hother : ∀ m, m ≠ n → (s'.nodes m).hasRules = true → s'.isConfigured m = true := by
      intro m hm hrules
      rw [hothers m hm] at hrules
      exact hi.isConfigured_grow hi' hgrow (hone m hrules)
    -- What is cached stays, so it depends on the node that takes the step only.
    have hself : (∀ m, (s'.nodes m).hasRules = true → s'.isConfigured m = true) ↔
        ((s'.nodes n).hasRules = true → s'.isConfigured n = true) := by
      refine ⟨fun hall => hall n, fun hn m hrules => ?_⟩
      by_cases hm : m = n
      · subst hm
        exact hn hrules
      · exact hother m hm hrules
    rw [hself]
    by_cases hpc : (s.nodes n).pc = .startRulesManager
    · exact hi.configured_start hi' h hpc
    · -- Any other step starts no rules.
      refine iff_of_true (fun hrules => ?_) (by simp [Spares, hpc])
      rw [start_hasRules h] at hrules
      rcases hrules with hrules | ⟨hstart, -⟩
      · exact hi.isConfigured_grow hi' hgrow (hone n hrules)
      · exact absurd hstart hpc
  | execute n releaseId =>
    -- Only the version changes, and no node starts or stops its rules.
    refine iff_of_true (fun m hrules => ?_) rfl
    simp only [lts, Option.ite_none_right_eq_some] at h
    obtain ⟨hlistens, h⟩ := h
    have hpc : (s.nodes n).pc = .returned := by simpa [StartingNode.listens] using hlistens
    obtain ⟨g, a, version, hsplit, hentries, hnodes⟩ :=
      execute_spec ((hi n).version (by rw [hpc]; decide)) h
    have hgrow : EntriesGrow s.entries s'.entries := by
      rw [hentries]
      exact entriesGrow_version _ _
    have hsame : (s'.nodes m).hasRules = (s.nodes m).hasRules := by
      have hm := hnodes m
      split at hm
      · rw [hm.2]
        rfl
      · rw [hm]
    exact hi.isConfigured_grow hi' hgrow (hone m (hsame ▸ hrules))

/-- In every run of any number of nodes with any configurations, from an empty cache: the rules that
run are those of one artifact, the cached one, if and only if no rules manager starts without the
check on another artifact than the cached one. -/
theorem oneArtifact_iff {actions : List (Action N)}
    (h : (lts engines).exec (fresh configurations) actions = some s) :
    (lts engines).Always OneArtifact (fresh configurations) actions ↔
      (lts engines).Guarded (fun s a => s.Spares engines a = true) (fresh configurations) actions := by
  refine (lts engines).always_iff_guarded _ (Inv engines configurations) OneArtifact
    (fun _ _ _ hi _ hs => hi.step hs) (fun _ _ _ hi hone hs => oneArtifact_step hi hone hs)
    (inv_fresh engines configurations) ?_ h
  rw [(inv_fresh engines configurations).oneArtifact_iff_configured]
  exact fun n hrules => absurd hrules (by simp [fresh, StartingNode.fresh, StartingNode.hasRules])

/-- The first node is configured for `g:a:1`, the second one for a group and an artifact as given.
-/
def configuredFor (groupId artifactId : String) (n : Bool) : RulesConfiguration where
  channels := []
  replayChannels := []
  groupId := if n then jstr groupId else jstr "g"
  artifactId := if n then jstr artifactId else jstr "a"
  version := jstr "1"

/-- A number of steps of a node's start. -/
def steps (count : ℕ) (n : Bool) : List (Action Bool) := List.replicate count (.start n)

/-- The second node finds the coordinates of the first one in the cache. -/
def oneAfterTheOther : List (Action Bool) := steps 3 false ++ steps 4 true ++ steps 2 false

/-- It does not start, and the first node runs the cached artifact. -/
theorem oneArtifact_iff_oneAfterTheOther :
    (lts fun _ => Recorder.engine).Always OneArtifact (fresh (configuredFor "h" "b"))
      oneAfterTheOther := by
  have hrun : ((lts fun _ => Recorder.engine).exec (fresh (configuredFor "h" "b"))
      oneAfterTheOther).isSome = true := by
    decide +kernel
  obtain ⟨s, hs⟩ := Option.isSome_iff_exists.1 hrun
  exact (oneArtifact_iff hs).2 (by decide +kernel)

/-- The first node is the first to put a group id, and the second one the first to put an artifact
id and a version. -/
def mixedClaims : List (Action Bool) := steps 1 false ++ steps 4 true ++ steps 3 false

/-- Both rules managers start, each on its own artifact, and neither artifact is the cached one. -/
theorem mixedClaims_two_artifacts :
    ∃ s : Coordinates Bool, (lts fun _ => Recorder.engine).exec (fresh (configuredFor "h" "b"))
        mixedClaims = some s ∧
      s.entries RULES_GROUP_ID = some (jstr "g") ∧ s.entries RULES_ARTIFACT_ID = some (jstr "b") ∧
      (s.nodes false).rulesManager.releaseId = some ⟨jstr "g", jstr "a", jstr "1"⟩ ∧
      (s.nodes true).rulesManager.releaseId = some ⟨jstr "h", jstr "b", jstr "1"⟩ ∧
      ¬s.OneArtifact := by
  have hrun : ((lts fun _ => Recorder.engine).exec (fresh (configuredFor "h" "b"))
      mixedClaims).any (fun s : Coordinates Bool => decide
        (((s.nodes false).hasRules = true ∧ (s.nodes true).hasRules = true) ∧
          s.entries RULES_GROUP_ID = some (jstr "g") ∧
          s.entries RULES_ARTIFACT_ID = some (jstr "b") ∧
          (s.nodes false).rulesManager.releaseId = some ⟨jstr "g", jstr "a", jstr "1"⟩ ∧
          (s.nodes true).rulesManager.releaseId = some ⟨jstr "h", jstr "b", jstr "1"⟩)) = true := by
    decide +kernel
  obtain ⟨s, hs, hafter⟩ := (Option.any_eq_true _ _).1 hrun
  obtain ⟨⟨hfirst, hsecond⟩, hgroup, hartifact, hreleases⟩ := of_decide_eq_true hafter
  refine ⟨s, hs, hgroup, hartifact, hreleases.1, hreleases.2, fun hone => ?_⟩
  have hsame := (hone.same false true _ _ hfirst hsecond hreleases.1 hreleases.2).1
  revert hsame
  decide

/-! ## The current version -/

/-- A node whose start has returned is on the cached version. -/
def Current (n : N) (s : Coordinates N) : Prop :=
  (s.nodes n).listens = true → ∃ r, (s.nodes n).rulesManager.releaseId = some r ∧
    s.entries RULES_VERSION = some r.version

/-- The version that a release id asks for. -/
def versionOf (releaseId : JString) : JString := ((split 58 releaseId)[2]?).getD []

/-- Another version does not pass the node by: the cached version is still the one that the node was
to start when it registers its listener, and an update that reaches the listener does not end with
error messages, unless it asks for the cached version. -/
def Reaches (engines : N → KieEngine F) (n : N) (s : Coordinates N) : Action N → Bool
  | .start m => !(m == n && (s.nodes n).pc == .addListener) ||
      s.entries RULES_VERSION == some ((s.nodes n).asked (engines n))
  | .execute _ releaseId =>
    let c := (s.nodes n).rulesManager.rulesConfiguration
    let old := (s.entries RULES_VERSION).getD []
    !((s.nodes n).listens &&
        (engines n).outcome c.groupId c.artifactId old (versionOf releaseId) == .errors) ||
      versionOf releaseId == old

omit [DecidableEq N] [Fintype N] in
/-- A node that runs a version is current when that version is cached. -/
theorem current_of_runs {g a v : JString} (hruns : (s.nodes n).rulesManager.Runs g a v)
    (hlistens : (s.nodes n).listens = true) :
    s.Current n ↔ s.entries RULES_VERSION = some v := by
  have hrelease := hruns.running.releaseId
  constructor
  · intro h
    obtain ⟨r, hr, hversion⟩ := h hlistens
    rw [hrelease, Option.some.injEq] at hr
    subst hr
    exact hversion
  · exact fun h _ => ⟨_, hrelease, h⟩

/-- An update that returns leaves a current node current exactly when it reaches it. -/
theorem current_execute (hi : Inv engines configurations s) (hcurrent : s.Current n) {m : N}
    (h : (lts engines).step s (.execute m releaseId) = some s') :
    s'.Current n ↔ s.Reaches engines n (.execute m releaseId) = true := by
  simp only [lts, Option.ite_none_right_eq_some] at h
  obtain ⟨hlistens, h⟩ := h
  have hpc : (s.nodes m).pc = .returned := by simpa [StartingNode.listens] using hlistens
  obtain ⟨g, a, version, hsplit, hentries, hnodes⟩ :=
    execute_spec ((hi m).version (by rw [hpc]; decide)) h
  have hversion : versionOf releaseId = version := by rw [versionOf, hsplit]; rfl
  have hn := hnodes n
  split at hn
  · rename_i hn'
    obtain ⟨hreturned, hn⟩ := hn
    have hlistens' : (s'.nodes n).listens = true := by rw [hn]; exact hn'
    have hrules : (s.nodes n).hasRules = true := by
      have hpc' : (s.nodes n).pc = .returned := by simpa [StartingNode.listens] using hn'
      simp [StartingNode.hasRules, hpc']
    obtain ⟨old, hruns⟩ := (hi n).rules hrules
    have hold : s.entries RULES_VERSION = some old := (current_of_runs hruns hn').1 hcurrent
    obtain ⟨hthrown, hlands⟩ := UpdateVersionListener.updateVersion_run (E := engines n) hruns
      version
    rw [hreturned] at hthrown
    have hcached : s'.entries RULES_VERSION = some version := by
      rw [hentries, Function.update_self]
    rw [current_of_runs (v := ((engines n).outcome (configurations n).groupId
      (configurations n).artifactId old version).lands old version) (by rw [hn]; exact hlands)
      hlistens', hcached, Option.some.injEq]
    simp only [Reaches, hn', hversion, hold, Option.getD_some, (hi n).configuration,
      Bool.true_and]
    cases houtcome : (engines n).outcome (configurations n).groupId (configurations n).artifactId
      old version with
    | completed => simp [UpdateOutcome.lands]
    | errors => simp [UpdateOutcome.lands]
    | threw e =>
      rw [houtcome] at hthrown
      cases hthrown
  · rename_i hn'
    have hno : (s'.nodes n).listens ≠ true := by rw [hn]; exact hn'
    exact iff_of_true (fun h => absurd h hno) (by simp [Reaches, hn'])

/-- A step of a start leaves a current node current, and its own node exactly when the version that
it was to start is still cached. -/
theorem current_start (hi : Inv engines configurations s) (hcurrent : s.Current n) {m : N}
    (h : (lts engines).step s (.start m) = some s') :
    s'.Current n ↔ s.Reaches engines n (.start m) = true := by
  obtain ⟨hkeeps, hothers⟩ := start_frame h
  by_cases hm : m = n
  · subst hm
    have hself : ∀ entries node, (s.set m entries node).nodes m = node :=
      fun entries node => Function.update_self ..
    have hstart : s.start engines m = some s' := h
    by_cases hpc : (s.nodes m).pc = .addListener
    · -- The listener is registered for a node that runs the version it was to start.
      have hruns := (hi m).asked hpc
      unfold start at hstart
      simp only [hpc, Option.some.injEq] at hstart
      subst hstart
      rw [current_of_runs (g := (configurations m).groupId) (a := (configurations m).artifactId)
        (v := (s.nodes m).asked (engines m)) (by rw [hself]; exact hruns) (by rw [hself]; rfl)]
      simp [Reaches, hpc, set]
    · have hno : (s'.nodes m).listens ≠ true := by
        unfold start at hstart
        cases hpc' : (s.nodes m).pc with
        | putGroupId | putArtifactId | putVersion =>
          simp only [hpc', Option.some.injEq] at hstart
          subst hstart
          rw [hself]
          simp [StartingNode.listens]
        | startRulesManager =>
          simp only [hpc'] at hstart
          split at hstart <;> cases hstart <;> rw [hself] <;> simp [StartingNode.listens]
        | addListener => exact absurd hpc' hpc
        | returned | failed => simp only [hpc', reduceCtorEq] at hstart
      exact iff_of_true (fun h => absurd h hno) (by simp [Reaches, hpc])
  · have hsame := hothers n (Ne.symm hm)
    refine iff_of_true (fun hlistens => ?_) (by simp [Reaches, hm])
    rw [hsame] at hlistens ⊢
    obtain ⟨r, hr, hversion⟩ := hcurrent hlistens
    exact ⟨r, hr, hkeeps _ _ hversion⟩

/-- In every run of any number of nodes that start, and of calls of `execute` that return, on any of
the nodes whose start has returned: a node whose start has returned is on the cached version
throughout, if and only if every version that is put while the node starts, or later, reaches it. -/
theorem current_iff {actions : List (Action N)} (n : N)
    (h : (lts engines).exec (fresh configurations) actions = some s) :
    (lts engines).Always (Current n) (fresh configurations) actions ↔
      (lts engines).Guarded (fun s a => s.Reaches engines n a = true) (fresh configurations)
        actions := by
  refine (lts engines).always_iff_guarded _ (Inv engines configurations) (Current n)
    (fun _ _ _ hi _ hs => hi.step hs) (fun s a s' hi hcurrent hs => ?_) (inv_fresh engines configurations)
    ?_ h
  · cases a with
    | start m => exact current_start hi hcurrent hs
    | execute m releaseId => exact current_execute hi hcurrent hs
  · exact fun hlistens => absurd hlistens (by
      simp [fresh, StartingNode.fresh, StartingNode.listens])

/-- The second node starts after an update, and there is another one when it has started. -/
def joinsAfterUpdate : List (Action Bool) :=
  steps 5 false ++ steps 2 true ++ [.execute false (jstr "g:a:2")] ++ steps 3 true ++
    [.execute false (jstr "g:a:3")]

/-- It is on the cached version throughout. -/
theorem current_iff_joinsAfterUpdate :
    (lts fun _ => Recorder.engine).Always (Current true) (fresh (configuredFor "g" "a"))
      joinsAfterUpdate := by
  have hrun : ((lts fun _ => Recorder.engine).exec (fresh (configuredFor "g" "a"))
      joinsAfterUpdate).isSome = true := by
    decide +kernel
  obtain ⟨s, hs⟩ := Option.isSome_iff_exists.1 hrun
  exact (current_iff true hs).2 (by decide +kernel)

/-- An update comes between the second node's `putIfAbsent` of the version and its listener. -/
def joinsDuringUpdate : List (Action Bool) :=
  steps 5 false ++ steps 3 true ++ [.execute false (jstr "g:a:2")] ++ steps 2 true

/-- The second node has started on version 1, and version 2 is cached. -/
theorem joinsDuringUpdate_stale :
    ∃ s : Coordinates Bool, (lts fun _ => Recorder.engine).exec (fresh (configuredFor "g" "a"))
        joinsDuringUpdate = some s ∧
      (s.nodes true).pc = .returned ∧
      (s.nodes true).rulesManager.releaseId = some ⟨jstr "g", jstr "a", jstr "1"⟩ ∧
      s.entries RULES_VERSION = some (jstr "2") ∧ ¬s.Current true := by
  have hrun : ((lts fun _ => Recorder.engine).exec (fresh (configuredFor "g" "a"))
      joinsDuringUpdate).any (fun s : Coordinates Bool => decide
        ((s.nodes true).pc = .returned ∧
          (s.nodes true).rulesManager.releaseId = some ⟨jstr "g", jstr "a", jstr "1"⟩ ∧
          s.entries RULES_VERSION = some (jstr "2"))) = true := by
    decide +kernel
  obtain ⟨s, hs, hafter⟩ := (Option.any_eq_true _ _).1 hrun
  obtain ⟨hpc, hrelease, hcached⟩ := of_decide_eq_true hafter
  refine ⟨s, hs, hpc, hrelease, hcached, fun hcurrent => ?_⟩
  obtain ⟨r, hr, hversion⟩ := hcurrent (by rw [StartingNode.listens, hpc]; rfl)
  rw [hrelease, Option.some.injEq] at hr
  subst hr
  rw [hcached] at hversion
  revert hversion
  decide

end Coordinates

end Hacep
