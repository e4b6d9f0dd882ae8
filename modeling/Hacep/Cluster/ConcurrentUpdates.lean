import Hacep.Lib.Lts
import Hacep.Cluster.UpdateVersion

/-!
# Updates side by side

Any number of calls of `RulesUpdateVersionImpl.execute` at the same time, on any nodes. A call looks
at its release id, gets the two cached coordinates and the cached version, puts the new version, and
puts the old one back when that put throws. Each of these is a step; a put is one step together with
the updates that it runs on all nodes.

The old version is read before the put that it protects, and the rollback does not look at what the
cache has by then. `last_completed_cached`: when no call is under way, the cached version is that of
the last call that has returned, in every run in which each rollback puts back the version of the
last call that has returned until then. `execute_alone`: a call that nobody interrupts is `execute`.
-/

namespace Hacep

open Java
open RulesManager (RULES_GROUP_ID RULES_ARTIFACT_ID RULES_VERSION)

variable {N T F : Type}

/-- Where a call of `execute` is. -/
inductive UpdatePc
  | start
  /-- `replicatedCache.get(RULES_GROUP_ID)`, and the comparison. -/
  | getGroupId (groupId artifactId version : JString)
  /-- `replicatedCache.get(RULES_ARTIFACT_ID)`, and the comparison. -/
  | getArtifactId (artifactId version : JString)
  /-- `oldVersion = replicatedCache.get(RULES_VERSION)`. -/
  | getVersion (version : JString)
  /-- `replicatedCache.put(RULES_VERSION, version)`. -/
  | put (version : JString) (oldVersion : Option JString)
  /-- `replicatedCache.put(RULES_VERSION, oldVersion)`. -/
  | rollback (oldVersion : Option JString)
  | returned
  | threw
  deriving DecidableEq, Repr

/-- The cluster, and its calls of `execute`. `completed` records the versions of the calls that have
returned, in the order of their puts. -/
structure Updates (T N : Type) where
  cluster : InfoCluster N
  pc : T → UpdatePc := fun _ => .start
  completed : List JString := []

namespace Updates

/-- The version of the last call that has returned, or the initial one. -/
def lastCompleted (initial : JString) (s : Updates T N) : JString :=
  s.completed.getLast?.getD initial

/-- No call is under way. -/
def Settled (s : Updates T N) : Prop :=
  ∀ t, s.pc t = .start ∨ s.pc t = .returned ∨ s.pc t = .threw

instance [Fintype T] (s : Updates T N) : Decidable s.Settled :=
  inferInstanceAs (Decidable (∀ t, s.pc t = .start ∨ s.pc t = .returned ∨ s.pc t = .threw))

section Lts

variable [DecidableEq T] [Fintype N] (engines : N → KieEngine F) (cacheException : Throwable)
  (releaseIds : T → JString)

/-- The call goes on to a point of `execute`. -/
def goTo (s : Updates T N) (t : T) (pc : UpdatePc) : Updates T N :=
  { s with pc := Function.update s.pc t pc }

/-- The calls, one step of one call at a time. -/
def lts : Lts (Updates T N) T where
  step s t :=
    let entries := s.cluster.entries
    match s.pc t with
    | .start =>
      match split 58 (releaseIds t) with
      | [groupId, artifactId, version] => some (s.goTo t (.getGroupId groupId artifactId version))
      | _ => some (s.goTo t .threw)
    | .getGroupId groupId artifactId version => some (s.goTo t
        (if entries RULES_GROUP_ID = some groupId then .getArtifactId artifactId version
        else .threw))
    | .getArtifactId artifactId version => some (s.goTo t
        (if entries RULES_ARTIFACT_ID = some artifactId then .getVersion version else .threw))
    | .getVersion version => some (s.goTo t (.put version (entries RULES_VERSION)))
    | .put version oldVersion =>
      match InfoCluster.put engines cacheException RULES_VERSION version ⟨s.cluster, []⟩ with
      | .ok _ fr => some { (s.goTo t .returned) with
          cluster := fr.this, completed := s.completed ++ [version] }
      | .error _ fr => some { (s.goTo t (.rollback oldVersion)) with cluster := fr.this }
    -- The cache refuses `null`; a put has changed the entry also where it throws.
    | .rollback none => some (s.goTo t .threw)
    | .rollback (some oldVersion) => some { (s.goTo t .threw) with
        cluster := (finalFrame (InfoCluster.put engines cacheException RULES_VERSION oldVersion
          ⟨s.cluster, []⟩)).this }
    | .returned | .threw => none

/-- A rollback puts back the version of the last call that has returned. -/
def Restores (initial : JString) (s : Updates T N) (t : T) : Bool :=
  match s.pc t with
  | .rollback oldVersion => oldVersion == some (s.lastCompleted initial)
  | _ => true

/-- The cache has the version of the last call that has returned, unless a call whose put has thrown
has yet to roll back. -/
def Inv (initial : JString) (s : Updates T N) : Prop :=
  s.cluster.entries RULES_VERSION = some (s.lastCompleted initial) ∨
    ∃ t old, s.pc t = .rollback old

variable {engines cacheException releaseIds} {s s' : Updates T N} {t : T} {initial : JString}

omit [DecidableEq T] in
/-- A put has changed the entry, whether it returns or throws. -/
theorem put_entries (engines : N → KieEngine F) (cacheException : Throwable) (c : InfoCluster N)
    (version : JString) :
    (finalFrame (InfoCluster.put engines cacheException RULES_VERSION version
        ⟨c, []⟩)).this.entries =
      Function.update c.entries RULES_VERSION (some version) := by
  unfold InfoCluster.put
  simp only
  split
  · rfl
  · split <;> rfl

omit [Fintype N] in
/-- A step that leaves the cache and the record alone keeps the invariant, unless it is the rollback
that was to come. -/
theorem Inv.goTo (h : Inv initial s) (hpc : ∀ old, s.pc t ≠ .rollback old) (pc : UpdatePc) :
    Inv initial (s.goTo t pc) := by
  rcases h with hcached | ⟨t', old, ht'⟩
  · exact .inl hcached
  · have hne : t' ≠ t := by
      rintro rfl
      exact hpc old ht'
    exact .inr ⟨t', old, (Function.update_of_ne hne ..).trans ht'⟩

/-- A step whose rollback puts back the right version keeps the invariant. -/
theorem Inv.step (h : Inv initial s) (hrestores : s.Restores initial t = true)
    (hs : (lts engines cacheException releaseIds).step s t = some s') : Inv initial s' := by
  simp only [lts] at hs
  cases hpc : s.pc t with
  | start =>
    have hgoes := h.goTo (t := t) (fun old => by rw [hpc]; simp)
    rw [hpc] at hs
    simp only at hs
    split at hs <;> cases hs <;> exact hgoes _
  | getGroupId | getArtifactId | getVersion =>
    have hgoes := h.goTo (t := t) (fun old => by rw [hpc]; simp)
    rw [hpc] at hs
    cases hs
    exact hgoes _
  | put version old =>
    have hentries := put_entries engines cacheException s.cluster version
    simp only [hpc] at hs
    split at hs
    · -- The put returns, and with it the call.
      rename_i fr hput
      cases hs
      rw [hput, finalFrame] at hentries
      left
      rw [hentries, Function.update_self, lastCompleted, List.getLast?_concat, Option.getD_some]
    · -- The put throws: the call has yet to roll back.
      rename_i e fr hput
      cases hs
      exact .inr ⟨t, old, Function.update_self ..⟩
  | rollback old =>
    -- What is put back is the version of the last call that has returned.
    unfold Restores at hrestores
    simp only [hpc, beq_iff_eq] at hrestores
    subst hrestores
    simp only [hpc, Option.some.injEq] at hs
    subst hs
    left
    rw [put_entries, Function.update_self]
    rfl
  | returned | threw =>
    simp only [hpc, reduceCtorEq] at hs

/-- In every run of any number of calls of `execute` on any cluster whose cache has a version: if
every rollback puts back the version of the last call that has returned by then, or the initial one
when none has, then whenever no call is under way this is the cached version. -/
theorem last_completed_cached {c : InfoCluster N} {schedule : List T}
    (hinitial : c.entries RULES_VERSION = some initial)
    (h : (lts engines cacheException releaseIds).exec { cluster := c } schedule = some s)
    (hrestores : (lts engines cacheException releaseIds).Guarded
      (fun s t => s.Restores initial t = true) { cluster := c } schedule)
    (hsettled : s.Settled) :
    s.cluster.entries RULES_VERSION = some (s.lastCompleted initial) := by
  have hinv : Inv initial s :=
    (lts engines cacheException releaseIds).exec_guarded_invariant _ (Inv initial)
      (fun _ _ _ hi hok hs => hi.step hok hs) (.inl hinitial) hrestores h
  refine hinv.resolve_right ?_
  rintro ⟨t, old, ht⟩
  rcases hsettled t with h | h | h <;> rw [ht] at h <;> cases h

/-! ## A call alone -/

section Alone

variable (engines cacheException releaseIds)

/-- The call takes steps that lead from one state to the other. -/
def Alone (t : T) (s s' : Updates T N) : Prop :=
  ∃ count, (lts engines cacheException releaseIds).exec s (List.replicate count t) = some s'

variable {engines cacheException releaseIds}

theorem alone_refl : Alone engines cacheException releaseIds t s s := ⟨0, rfl⟩

/-- A step and then the rest. -/
theorem Alone.cons (s₁ : Updates T N)
    (hs : (lts engines cacheException releaseIds).step s t = some s₁)
    (h : Alone engines cacheException releaseIds t s₁ s') :
    Alone engines cacheException releaseIds t s s' := by
  obtain ⟨count, hcount⟩ := h
  refine ⟨count + 1, ?_⟩
  rw [List.replicate_succ]
  exact ((lts engines cacheException releaseIds).exec_cons_eq_some).2 ⟨s₁, hs, hcount⟩

/-- The call has ended as a call of `execute` ends. -/
def EndsLike (s : Updates T N) (t : T)
    (result : EStateM.Result Throwable (Frame PEmpty (InfoCluster N)) JString) : Prop :=
  s.cluster = (finalFrame result).this ∧ s.pc t = if returned result then .returned else .threw

omit [Fintype N] in
theorem goTo_pc (s : Updates T N) (t : T) (pc : UpdatePc) : (s.goTo t pc).pc t = pc :=
  Function.update_self ..

omit [Fintype N] in
/-- A call that is refused has left the cluster as it was. -/
theorem endsLike_threw (s : Updates T N) (t : T) (e : Throwable) :
    (s.goTo t .threw).EndsLike t (.error e ⟨s.cluster, []⟩) := ⟨rfl, goTo_pc s t .threw⟩

omit [DecidableEq T] [Fintype N] in
/-- Nothing leaves the cluster, so a frame is its receiver. -/
theorem frame_eq (fr : Frame PEmpty (InfoCluster N)) : ⟨fr.this, []⟩ = fr := by
  obtain ⟨c, out⟩ := fr
  cases out with
  | nil => rfl
  | cons d _ => exact d.elim

/-- A call that nobody interrupts puts the old version back, where there is one, and throws. -/
theorem alone_rollback (engines : N → KieEngine F) (cacheException : Throwable)
    (releaseIds : T → JString) {old : Option JString} (hpc : s.pc t = .rollback old) :
    ∃ s', Alone engines cacheException releaseIds t s s' ∧ s'.pc t = .threw ∧
      s'.cluster = match old with
        | none => s.cluster
        | some old => (finalFrame (InfoCluster.put engines cacheException RULES_VERSION old
            ⟨s.cluster, []⟩)).this := by
  cases old with
  | none =>
    have hstep : (lts engines cacheException releaseIds).step s t = some (s.goTo t .threw) := by
      simp only [lts, hpc]
    exact ⟨_, .cons _ hstep alone_refl, goTo_pc s t .threw, rfl⟩
  | some old =>
    have hstep : (lts engines cacheException releaseIds).step s t = some { (s.goTo t .threw) with
        cluster := (finalFrame (InfoCluster.put engines cacheException RULES_VERSION old
          ⟨s.cluster, []⟩)).this } := by
      simp only [lts, hpc]
    exact ⟨_, .cons _ hstep alone_refl, goTo_pc s t .threw, rfl⟩

/-- A call that nobody interrupts goes on from its put. -/
theorem alone_put (engines : N → KieEngine F) (cacheException : Throwable)
    (releaseIds : T → JString) (releaseId : JString) {g a version : JString}
    (hpc : s.pc t = .put version (s.cluster.entries RULES_VERSION))
    (hgroup : s.cluster.entries RULES_GROUP_ID = some g)
    (hartifact : s.cluster.entries RULES_ARTIFACT_ID = some a) :
    ∃ s', Alone engines cacheException releaseIds t s s' ∧
      s'.EndsLike t (RulesUpdateVersionImpl.executeTokens engines cacheException releaseId g a
        version ⟨s.cluster, []⟩) := by
  rw [RulesUpdateVersionImpl.executeTokens_same engines cacheException hgroup hartifact]
  cases hput : InfoCluster.put engines cacheException RULES_VERSION version ⟨s.cluster, []⟩ with
  | ok _ fr =>
    have hstep : (lts engines cacheException releaseIds).step s t = some { (s.goTo t .returned) with
        cluster := fr.this, completed := s.completed ++ [version] } := by
      simp only [lts, hpc, hput]
    exact ⟨_, .cons _ hstep alone_refl, rfl, goTo_pc s t .returned⟩
  | error e fr =>
    -- The put has thrown, and the call rolls back.
    generalize hold : s.cluster.entries RULES_VERSION = old at hpc
    have hstep : (lts engines cacheException releaseIds).step s t =
        some { (s.goTo t (.rollback old)) with cluster := fr.this } := by
      simp only [lts, hpc, hput]
    have hpc₁ : ({ (s.goTo t (.rollback old)) with cluster := fr.this } : Updates T N).pc t =
        .rollback old := goTo_pc s t _
    obtain ⟨s', hrollback, hthrew, hcluster⟩ :=
      alone_rollback engines cacheException releaseIds hpc₁
    refine ⟨s', .cons _ hstep hrollback, ?_⟩
    cases old with
    | none => exact ⟨hcluster, hthrew⟩
    | some old =>
      -- `execute` throws after the second put, whether that returns or throws.
      simp only [frame_eq fr] at hcluster
      simp only
      cases hback : InfoCluster.put engines cacheException RULES_VERSION old fr with
      | ok _ fr₂ | error e' fr₂ =>
        rw [hback] at hcluster
        exact ⟨hcluster, hthrew⟩

/-- The checks of a call, one by one. -/
theorem step_getGroupId (engines : N → KieEngine F) (cacheException : Throwable)
    (releaseIds : T → JString) {g a version : JString} (hpc : s.pc t = .getGroupId g a version) :
    (lts engines cacheException releaseIds).step s t = some (s.goTo t
      (if s.cluster.entries RULES_GROUP_ID = some g then .getArtifactId a version
      else .threw)) := by
  simp only [lts, hpc]

theorem step_getArtifactId (engines : N → KieEngine F) (cacheException : Throwable)
    (releaseIds : T → JString) {a version : JString} (hpc : s.pc t = .getArtifactId a version) :
    (lts engines cacheException releaseIds).step s t = some (s.goTo t
      (if s.cluster.entries RULES_ARTIFACT_ID = some a then .getVersion version else .threw)) := by
  simp only [lts, hpc]

theorem step_getVersion (engines : N → KieEngine F) (cacheException : Throwable)
    (releaseIds : T → JString) {version : JString} (hpc : s.pc t = .getVersion version) :
    (lts engines cacheException releaseIds).step s t =
      some (s.goTo t (.put version (s.cluster.entries RULES_VERSION))) := by
  simp only [lts, hpc]

/-- A call that nobody interrupts comes to its put when its coordinates are the cached ones, and
throws when they are not. -/
theorem alone_checks (engines : N → KieEngine F) (cacheException : Throwable)
    (releaseIds : T → JString) {g a version : JString} (hpc : s.pc t = .getGroupId g a version) :
    ∃ s₁, Alone engines cacheException releaseIds t s s₁ ∧ s₁.cluster = s.cluster ∧ s₁.pc t =
      if s.cluster.entries RULES_GROUP_ID = some g ∧ s.cluster.entries RULES_ARTIFACT_ID = some a
      then .put version (s.cluster.entries RULES_VERSION) else .threw := by
  have hgroup := step_getGroupId engines cacheException releaseIds hpc
  by_cases hg : s.cluster.entries RULES_GROUP_ID = some g
  · rw [if_pos hg] at hgroup
    have hartifact := step_getArtifactId engines cacheException releaseIds
      (goTo_pc s t (.getArtifactId a version))
    by_cases ha : s.cluster.entries RULES_ARTIFACT_ID = some a
    · -- Both coordinates are the cached ones: the old version is read.
      rw [if_pos (show (s.goTo t _).cluster.entries _ = _ from ha)] at hartifact
      have hversion := step_getVersion engines cacheException releaseIds
        (goTo_pc (s.goTo t (.getArtifactId a version)) t (.getVersion version))
      refine ⟨_, .cons _ hgroup (.cons _ hartifact (.cons _ hversion alone_refl)), rfl, ?_⟩
      rw [if_pos ⟨hg, ha⟩]
      exact goTo_pc _ t _
    · rw [if_neg (show (s.goTo t _).cluster.entries _ ≠ _ from ha)] at hartifact
      refine ⟨_, .cons _ hgroup (.cons _ hartifact alone_refl), rfl, ?_⟩
      rw [if_neg fun h => ha h.2]
      exact goTo_pc _ t _
  · rw [if_neg hg] at hgroup
    refine ⟨_, .cons _ hgroup alone_refl, rfl, ?_⟩
    rw [if_neg fun h => hg h.1]
    exact goTo_pc s t _

/-- The steps of a call may be taken in two parts. -/
theorem Alone.trans {s₁ : Updates T N} (h : Alone engines cacheException releaseIds t s s₁)
    (h' : Alone engines cacheException releaseIds t s₁ s') :
    Alone engines cacheException releaseIds t s s' := by
  obtain ⟨count, hcount⟩ := h
  obtain ⟨count', hcount'⟩ := h'
  refine ⟨count + count', ?_⟩
  rw [List.replicate_add, (lts engines cacheException releaseIds).exec_append, hcount]
  exact hcount'

/-- A call that nobody interrupts does to the cluster what `execute` does, and returns or throws as
`execute` does. -/
theorem execute_alone (hpc : s.pc t = .start) :
    ∃ s', Alone engines cacheException releaseIds t s s' ∧
      s'.EndsLike t (RulesUpdateVersionImpl.execute engines cacheException (releaseIds t)
        ⟨s.cluster, []⟩) := by
  by_cases htokens : ∃ g a version, split 58 (releaseIds t) = [g, a, version]
  · obtain ⟨g, a, version, hsplit⟩ := htokens
    have hexecute : RulesUpdateVersionImpl.execute engines cacheException (releaseIds t)
        ⟨s.cluster, []⟩ =
        RulesUpdateVersionImpl.executeTokens engines cacheException (releaseIds t) g a version
          ⟨s.cluster, []⟩ := by
      unfold RulesUpdateVersionImpl.execute
      rw [hsplit]
    have hstart : (lts engines cacheException releaseIds).step s t =
        some (s.goTo t (.getGroupId g a version)) := by
      simp only [lts, hpc, hsplit]
    obtain ⟨s₁, hchecks, hcluster, hpc₁⟩ := alone_checks engines cacheException releaseIds
      (goTo_pc s t (.getGroupId g a version))
    replace hcluster : s₁.cluster = s.cluster := hcluster
    replace hpc₁ : s₁.pc t =
        if s.cluster.entries RULES_GROUP_ID = some g ∧ s.cluster.entries RULES_ARTIFACT_ID = some a
        then .put version (s.cluster.entries RULES_VERSION) else .threw := hpc₁
    rw [hexecute, ← hcluster]
    by_cases hsame : s.cluster.entries RULES_GROUP_ID = some g ∧
        s.cluster.entries RULES_ARTIFACT_ID = some a
    · -- The coordinates are the cached ones, and the call comes to its put.
      rw [if_pos hsame, ← hcluster] at hpc₁
      rw [← hcluster] at hsame
      obtain ⟨s', hput, hends⟩ := alone_put engines cacheException releaseIds (releaseIds t) hpc₁
        hsame.1 hsame.2
      exact ⟨s', .cons _ hstart (hchecks.trans hput), hends⟩
    · rw [if_neg hsame] at hpc₁
      rw [← hcluster] at hsame
      obtain ⟨e, hrefused⟩ :=
        RulesUpdateVersionImpl.executeTokens_other engines cacheException hsame
      rw [hrefused]
      exact ⟨s₁, .cons _ hstart hchecks, rfl, hpc₁⟩
  · rw [RulesUpdateVersionImpl.execute_malformed engines cacheException htokens]
    have hstep : (lts engines cacheException releaseIds).step s t = some (s.goTo t .threw) := by
      simp only [lts, hpc]
      split
      · exact absurd ⟨_, _, _, ‹_›⟩ htokens
      · rfl
    exact ⟨_, .cons _ hstep alone_refl, endsLike_threw s t _⟩

end Alone

end Lts

/-! ## Runs -/

/-- No node can go to version 2. -/
def noSecond (_ : Bool) : KieEngine Reading :=
  recorder fun _ target => if target.version = jstr "2" then .threw (.external 4) else .completed

/-- One call asks for version 2, and one for version 3. -/
def secondAndThird (t : Bool) : JString := if t = true then jstr "g:a:3" else jstr "g:a:2"

/-- The call for version 3, and after it the call for version 2, which rolls back. -/
def oneByOne : List Bool := List.replicate 5 true ++ List.replicate 6 false

/-- The cache has version 3 in the end. -/
theorem last_completed_cached_oneByOne :
    ∃ s, (lts noSecond (.external 5) secondAndThird).exec { cluster := Recorder.infoCluster }
        oneByOne = some s ∧
      s.Settled ∧ s.completed = [jstr "3"] ∧ s.cluster.entries RULES_VERSION = some (jstr "3") := by
  have hrun : ((lts noSecond (.external 5) secondAndThird).exec { cluster := Recorder.infoCluster }
      oneByOne).any (fun s => decide (s.Settled ∧ s.completed = [jstr "3"])) = true := by
    decide +kernel
  have hrestores : (lts noSecond (.external 5) secondAndThird).Guarded
      (fun s t => s.Restores (jstr "1") t = true) { cluster := Recorder.infoCluster } oneByOne := by
    decide +kernel
  obtain ⟨s, hs, hafter⟩ := (Option.any_eq_true _ _).1 hrun
  obtain ⟨hsettled, hcompleted⟩ := of_decide_eq_true hafter
  refine ⟨s, hs, hsettled, hcompleted, ?_⟩
  rw [last_completed_cached Recorder.infoCluster_agrees.cached hs hrestores hsettled, lastCompleted,
    hcompleted]
  rfl

/-- The call for version 2 has read version 1 when the call for version 3 returns; then its put
throws, and it rolls back. -/
def completedInBetween : List Bool :=
  List.replicate 4 false ++ List.replicate 5 true ++ List.replicate 2 false

/-- The call for version 3 has returned, no call is under way, and the cache has version 1. -/
theorem completedInBetween_undone :
    ∃ s, (lts noSecond (.external 5) secondAndThird).exec { cluster := Recorder.infoCluster }
        completedInBetween = some s ∧
      s.Settled ∧ s.pc true = .returned ∧ s.lastCompleted (jstr "1") = jstr "3" ∧
      s.cluster.entries RULES_VERSION = some (jstr "1") := by
  have hrun : ((lts noSecond (.external 5) secondAndThird).exec { cluster := Recorder.infoCluster }
      completedInBetween).any (fun s => decide (s.Settled ∧ s.pc true = .returned ∧
        s.lastCompleted (jstr "1") = jstr "3" ∧
        s.cluster.entries RULES_VERSION = some (jstr "1"))) = true := by
    decide +kernel
  obtain ⟨s, hs, hafter⟩ := (Option.any_eq_true _ _).1 hrun
  exact ⟨s, hs, of_decide_eq_true hafter⟩

end Updates

end Hacep
