import Hacep.Cluster.UpdateVersion

/-!
# The release ids that an update accepts

`RulesUpdateVersionImpl.execute` takes a release id apart with `String.split`, which drops the empty
strings at the end, and counts the tokens. So it accepts the ids of the form
`group:artifact:version` and, as if they were these, the same ids with colons behind them
(`tokens_iff`).

What a call writes is observed by a cache that records its writes (`InfoCluster.recordedPut`). The
code is stated once for any way to put into the cache (`executeWith`), and `executeWith_put` says
that with the plain one it is `execute`.
-/

namespace Hacep

open Java
open RulesManager (RULES_GROUP_ID RULES_ARTIFACT_ID RULES_VERSION)

variable {F N : Type}

/-- A `put` on the info cache that is recorded when it is made, whether it returns or throws. -/
def InfoCluster.recordedPut [Fintype N] (engines : N → KieEngine F) (cacheException : Throwable)
    (key value : JString) : Method (JString × JString) (InfoCluster N) Unit := fun fr =>
  let out := fr.out ++ [(key, value)]
  match InfoCluster.put engines cacheException key value ⟨fr.this, []⟩ with
  | .ok _ fr' => .ok () ⟨fr'.this, out⟩
  | .error e fr' => .error e ⟨fr'.this, out⟩

/-- The release id `group:artifact:version`. -/
def releaseIdOf (groupId artifactId version : JString) : JString :=
  groupId ++ 58 :: (artifactId ++ 58 :: version)

/-- What stands between the colons of a release id. -/
structure IsToken (token : JString) : Prop where
  /-- It is not empty. -/
  ne_nil : token ≠ []
  /-- It has no colon. -/
  notMem : (58 : UInt16) ∉ token

instance (token : JString) : Decidable (IsToken token) :=
  decidable_of_iff (token ≠ [] ∧ (58 : UInt16) ∉ token) ⟨fun h => ⟨h.1, h.2⟩, fun h => ⟨h.1, h.2⟩⟩

section Tokens

variable {groupId artifactId version releaseId : JString}

/-- The three tokens of a release id are those of the id without the colons at its end. -/
theorem tokens_iff (hgroup : (58 : UInt16) ∉ groupId) (hartifact : (58 : UInt16) ∉ artifactId) :
    split 58 releaseId = [groupId, artifactId, version] ↔ IsToken version ∧
      ∃ n, releaseId = releaseIdOf groupId artifactId version ++ List.replicate n 58 := by
  have hid : [58].intercalate ([groupId, artifactId] ++ [version]) =
      releaseIdOf groupId artifactId version := by
    simp [List.intercalate, releaseIdOf]
  have hsplit : split 58 releaseId = [groupId, artifactId] ++ [version] ↔ _ :=
    split_eq_append_iff (List.cons_ne_nil _ _)
  rw [hid] at hsplit
  refine hsplit.trans ⟨?_, ?_⟩
  · rintro ⟨hparts, hne, n, hn⟩
    exact ⟨⟨hne, hparts version (by simp)⟩, n, hn⟩
  · rintro ⟨hversion, n, hn⟩
    refine ⟨fun p hp => ?_, hversion.ne_nil, n, hn⟩
    simp only [List.cons_append, List.nil_append, List.mem_cons, List.not_mem_nil, or_false] at hp
    obtain rfl | rfl | rfl := hp
    · exact hgroup
    · exact hartifact
    · exact hversion.notMem

/-- The version in a release id is what follows the artifact id. -/
theorem releaseIdOf_append (suffix : JString) :
    releaseIdOf groupId artifactId version ++ suffix =
      releaseIdOf groupId artifactId (version ++ suffix) := by
  simp [releaseIdOf]

/-- A release id has one version. -/
theorem releaseIdOf_inj {version' : JString}
    (h : releaseIdOf groupId artifactId version = releaseIdOf groupId artifactId version') :
    version = version' := by
  simpa [releaseIdOf] using h

end Tokens

section Cluster

variable [Fintype N] (engines : N → KieEngine F) (cacheException : Throwable) {c : InfoCluster N}
  {groupId artifactId version releaseId : JString}

/-- A recorded put appends what it writes. -/
theorem InfoCluster.recordedPut_out (key value : JString)
    (fr : Frame (JString × JString) (InfoCluster N)) :
    (finalFrame (recordedPut engines cacheException key value fr)).out = fr.out ++ [(key, value)] := by
  unfold recordedPut
  simp only
  split <;> rfl

namespace RulesUpdateVersionImpl

variable (c releaseId) in
/-- How a call with recorded writes ends. -/
abbrev recorded :=
  executeWith (InfoCluster.recordedPut engines cacheException) releaseId ⟨c, []⟩

variable (c releaseId) in
/-- What a call writes. -/
def writes : List (JString × JString) := (finalFrame (recorded engines cacheException c releaseId)).out

/-- The call takes exactly the release ids of the rules `group:artifact`: it writes the version of
one of these, and throws and changes nothing for every other string. -/
structure AcceptsExactly (c : InfoCluster N) (groupId artifactId releaseId : JString) : Prop where
  /-- The version is written for a release id of the rules only. -/
  written : (∃ value, (RULES_VERSION, value) ∈ writes engines cacheException c releaseId) ↔
    ∃ version, IsToken version ∧ releaseId = releaseIdOf groupId artifactId version
  /-- What is written is the version in the id. -/
  value : ∀ version, IsToken version → releaseId = releaseIdOf groupId artifactId version →
    (writes engines cacheException c releaseId).head? = some (RULES_VERSION, version)
  /-- A rejection is an exception and changes no entry. -/
  rejected : (∀ version, IsToken version → releaseId ≠ releaseIdOf groupId artifactId version) →
    returned (execute engines cacheException releaseId ⟨c, []⟩) = false ∧
      (finalFrame (execute engines cacheException releaseId ⟨c, []⟩)).this.entries = c.entries

/-- The tokens of the cached rules are a put of the version, before anything else. -/
theorem writes_of_tokens (hgroup : c.entries RULES_GROUP_ID = some groupId)
    (hartifact : c.entries RULES_ARTIFACT_ID = some artifactId)
    (htokens : split 58 releaseId = [groupId, artifactId, version]) :
    (writes engines cacheException c releaseId).head? = some (RULES_VERSION, version) := by
  have hput := InfoCluster.recordedPut_out engines cacheException RULES_VERSION version ⟨c, []⟩
  have hback := fun old => InfoCluster.recordedPut_out engines cacheException RULES_VERSION old
  unfold writes recorded executeWith
  rw [htokens]
  simp only
  rw [executeTokensWith_same _ hgroup hartifact]
  cases hfirst : InfoCluster.recordedPut engines cacheException RULES_VERSION version ⟨c, []⟩ with
  | ok _ fr =>
    rw [hfirst] at hput
    simp only [finalFrame] at hput ⊢
    rw [hput]
    rfl
  | error e fr =>
    -- What the handler writes comes after the version.
    rw [hfirst] at hput
    simp only [finalFrame] at hput ⊢
    cases hold : c.entries RULES_VERSION with
    | none =>
      simp only
      rw [hput]
      rfl
    | some old =>
      have hsecond := hback old fr
      cases hrun : InfoCluster.recordedPut engines cacheException RULES_VERSION old fr with
      | ok _ fr' =>
        rw [hrun] at hsecond
        simp only [finalFrame, hrun] at hsecond ⊢
        rw [hsecond, hput]
        rfl
      | error e' fr' =>
        rw [hrun] at hsecond
        simp only [finalFrame, hrun] at hsecond ⊢
        rw [hsecond, hput]
        rfl

/-- The version is written, or nothing is, exactly as the tokens say. -/
theorem writes_iff (hgroup : c.entries RULES_GROUP_ID = some groupId)
    (hartifact : c.entries RULES_ARTIFACT_ID = some artifactId) :
    (∃ value, (RULES_VERSION, value) ∈ writes engines cacheException c releaseId) ↔
      ∃ version, split 58 releaseId = [groupId, artifactId, version] := by
  constructor
  · rintro ⟨value, hvalue⟩
    by_contra! hsplit
    obtain ⟨e, hrun⟩ := executeWith_rejected (InfoCluster.recordedPut engines cacheException)
      hgroup hartifact hsplit
    rw [writes, recorded, hrun] at hvalue
    exact List.not_mem_nil hvalue
  · rintro ⟨version, htokens⟩
    exact ⟨version, List.mem_of_mem_head? (Option.mem_def.2
      (writes_of_tokens engines cacheException hgroup hartifact htokens))⟩

/-- A call takes exactly the release ids of the cached rules when its argument is not one of these
with colons behind it. -/
theorem acceptsExactly_iff (hgroup : c.entries RULES_GROUP_ID = some groupId)
    (hartifact : c.entries RULES_ARTIFACT_ID = some artifactId)
    (hgroupId : IsToken groupId) (hartifactId : IsToken artifactId) (releaseId : JString) :
    AcceptsExactly engines cacheException c groupId artifactId releaseId ↔
      ¬∃ version n, IsToken version ∧
        releaseId = releaseIdOf groupId artifactId version ++ List.replicate (n + 1) 58 := by
  have htokens : ∀ version, split 58 releaseId = [groupId, artifactId, version] ↔ _ :=
    fun version => tokens_iff hgroupId.notMem hartifactId.notMem
  have hwrites : (∃ value, (RULES_VERSION, value) ∈ writes engines cacheException c releaseId) ↔ _ :=
    writes_iff engines cacheException hgroup hartifact
  constructor
  · rintro h ⟨version, n, hversion, hid⟩
    -- The id with colons behind it has the tokens, and is not of the form of an id.
    have hwritten : ∃ value, (RULES_VERSION, value) ∈ writes engines cacheException c releaseId :=
      hwrites.2 ⟨version, (htokens version).2 ⟨hversion, n + 1, hid⟩⟩
    obtain ⟨version', hversion', hid'⟩ := h.written.1 hwritten
    rw [hid, releaseIdOf_append] at hid'
    apply hversion'.notMem
    rw [← releaseIdOf_inj hid', List.replicate_succ]
    exact List.mem_append_right _ List.mem_cons_self
  · intro hcolons
    -- Without colons at the end the tokens say that the id has the form.
    have hform : ∀ version, split 58 releaseId = [groupId, artifactId, version] ↔
        IsToken version ∧ releaseId = releaseIdOf groupId artifactId version := by
      intro version
      rw [htokens version]
      refine and_congr_right fun hversion => ⟨?_, fun hid => ⟨0, by simpa using hid⟩⟩
      rintro ⟨n, hid⟩
      cases n with
      | zero => simpa using hid
      | succ n => exact absurd ⟨version, n, hversion, hid⟩ hcolons
    refine ⟨?_, ?_, ?_⟩
    · simp only [hwrites, hform]
    · intro version hversion hid
      exact writes_of_tokens engines cacheException hgroup hartifact
        ((hform version).2 ⟨hversion, hid⟩)
    · intro hother
      have hsplit : ∀ version, split 58 releaseId ≠ [groupId, artifactId, version] :=
        fun version h => hother version ((hform version).1 h).1 ((hform version).1 h).2
      have hrejected : ∃ e, executeWith (InfoCluster.put engines cacheException) releaseId
          ⟨c, []⟩ = .error e ⟨c, []⟩ := executeWith_rejected _ hgroup hartifact hsplit
      obtain ⟨e, hrun⟩ := hrejected
      rw [← executeWith_put, hrun]
      exact ⟨rfl, rfl⟩

end RulesUpdateVersionImpl

end Cluster

/-- A release id without a colon at its end. -/
theorem RulesUpdateVersionImpl.acceptsExactly_iff_plain :
    AcceptsExactly (secondNode .completed) (.external 5) Recorder.infoCluster (jstr "g") (jstr "a")
      (jstr "g:a:2") := by
  refine (acceptsExactly_iff (secondNode .completed) (.external 5)
    Recorder.infoCluster_agrees.group Recorder.infoCluster_agrees.artifact (by decide) (by decide)
    (jstr "g:a:2")).2 ?_
  rintro ⟨version, n, -, hid⟩
  have hlast := congrArg List.getLast? hid
  rw [List.replicate_succ', ← List.append_assoc, List.getLast?_concat] at hlast
  revert hlast
  decide

/-- With a colon behind it the release id is taken all the same: the version is written, and the
call returns. -/
theorem RulesUpdateVersionImpl.execute_colon :
    returned (execute (secondNode .completed) (.external 5) (jstr "g:a:2:")
        ⟨Recorder.infoCluster, []⟩) = true ∧
      writes (secondNode .completed) (.external 5) Recorder.infoCluster (jstr "g:a:2:") =
        [(RULES_VERSION, jstr "2")] ∧
      ∀ version, IsToken version → jstr "g:a:2:" ≠ releaseIdOf (jstr "g") (jstr "a") version := by
  refine ⟨by decide +kernel, by decide +kernel, fun version hversion hid => hversion.notMem ?_⟩
  have hsame : releaseIdOf (jstr "g") (jstr "a") (jstr "2:") = releaseIdOf _ _ version := hid
  rw [← releaseIdOf_inj hsame]
  decide

end Hacep
