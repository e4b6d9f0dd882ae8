import Hacep.Cluster.FactKeys
import Hacep.Grid.KieSessionSaver

/-!
# Removing a session

`KieSessionSaver.insert` keeps the session of a key under the key's group, a string.
`DataGridManager.removeSession` asks the same cache to remove the key itself, and no string equals a
key, so it removes nothing. In a run of inserts and removals the session of a group therefore goes
on after a removal, with the facts from before it.

The inserts themselves add each fact at every owner of its group (`insert_ok`), as long as the
primary owner has the session object. Without removals of sessions that are there, a group's session
has exactly the facts of its inserts since the last removal (`removes_iff`).
-/

namespace Hacep

open Java

variable {N F T : Type} [DecidableEq N] [Fact F] {E : KieEngine F}

namespace KieSessionSaver

variable {H : FactHistory E} {rules : N → RulesManager} {others : List N} {primary : N} {fact : F}
  {fr fr' : Frame PEmpty (N → Entry E)} {p : Put N}

/-- A put that returns leaves the live session at the primary owner and its delta's facts at the
others. -/
theorem put_ok {k : HAKieSession E} (hprimary : primary ∉ others)
    (h : put rules others primary p k fr = .ok () fr') :
    fr'.this primary = some (.live k.commit) ∧ ∀ o ∈ others,
      Entry.history H (fr'.this o) = Entry.history H (fr.this o) ++ k.delta.facts := by
  obtain ⟨hreturned, hthis⟩ := put_eq_ok h
  rw [hthis]
  refine ⟨if_pos rfl, fun o ho => ?_⟩
  have hne : o ≠ primary := fun h => hprimary (h ▸ ho)
  obtain ⟨fr₁, hmerge⟩ := merged_of_put ho hreturned
  rw [committed, if_neg hne, if_pos ho, hmerge]
  exact Delta.merge_ok hmerge

/-- An insertion into a live session and its put add the fact at every owner. -/
theorem insertStored_ok (hmem : primary ∉ others) {k : HAKieSession E}
    (hentry : fr.this primary = some (.live k))
    (h : insertStored rules others primary fact p fr = .ok () fr') :
    (∃ k', fr'.this primary = some (.live k')) ∧ ∀ o ∈ primary :: others,
      Entry.history H (fr'.this o) = Entry.history H (fr.this o) ++ [fact] := by
  rw [insertStored, bind_eq_ok] at h
  obtain ⟨_, fr₁, h₁, h⟩ := h
  obtain ⟨fr₂, h₂, hthis⟩ := onOwner_eq_ok h₁
  rw [hentry] at h₂
  obtain ⟨fr₃, hinsert, hlive⟩ := Entry.onLive_eq_ok h₂
  rw [hlive] at hthis
  obtain ⟨hhistory, hlast⟩ := HAKieSession.insert_ok (H := H) hinsert
  rw [bind_of_ok this_run, hthis, Function.update_self] at h
  obtain ⟨hprimary, hothers⟩ := put_ok (H := H) hmem h
  refine ⟨⟨_, hprimary⟩, fun o ho => ?_⟩
  obtain rfl | ho := List.mem_cons.1 ho
  · rw [hprimary, hentry]
    exact hhistory
  · have hne : o ≠ primary := fun h => hmem (h ▸ ho)
    rw [hothers o ho, hthis, Function.update_of_ne hne, HAKieSession.delta, hlast]
    rfl

/-- An insert that returns adds its fact at every owner, where the primary owner has no session or
the live one, and leaves it a live one. -/
theorem insert_ok (hmem : primary ∉ others) {first last : Put N} {entry : N → Entry E}
    (hentry : entry primary = none ∨ ∃ k, entry primary = some (.live k))
    (h : insert rules others primary fact first last ⟨entry, []⟩ = .ok () fr') :
    (∃ k, fr'.this primary = some (.live k)) ∧ ∀ o ∈ primary :: others,
      Entry.history H (fr'.this o) = Entry.history H (entry o) ++ [fact] := by
  rw [insert, bind_of_ok this_run] at h
  obtain hentry | ⟨k, hentry⟩ := hentry
  · -- A new session is put first.
    simp only [hentry, bind_eq_ok] at h
    obtain ⟨_, fr₁, hput, h⟩ := h
    obtain ⟨hlive, hhistory⟩ := put_new_ok (H := H) hentry hput
    obtain ⟨hprimary, howners⟩ := insertStored_ok (H := H) hmem hlive h
    exact ⟨hprimary, fun o ho => by rw [howners o ho, hhistory o]⟩
  · simp only [hentry] at h
    exact insertStored_ok hmem hentry h

end KieSessionSaver

/-- An object that is asked for in the session cache. -/
inductive CacheKey (T : Type)
  | string (s : JString)
  | key (key : FactKey T)
  deriving DecidableEq

/-- The session cache at every node, and the facts inserted for each group since the last removal of
its session. -/
structure SessionCache (T N : Type) (E : KieEngine F) where
  cache : CacheKey T → N → Entry E := fun _ _ => none
  facts : JString → List F := fun _ => []

namespace SessionCache

/-- The calls on the session cache. An insert comes with the
puts that it may make. -/
inductive Action (T N F : Type)
  | insert (key : FactKey T) (fact : F) (first last : KieSessionSaver.Put N)
  | removeSession (key : FactKey T)

/-- The nodes' rules, and the owners of the groups. -/
structure Owners (N : Type) where
  rules : N → RulesManager
  primary : JString → N
  others : JString → List N
  nodup : ∀ group, (primary group :: others group).Nodup

/-- The owners of a group. -/
def Owners.of (g : Owners N) (group : JString) : List N := g.primary group :: g.others group

variable [DecidableEq T]

/-- The object that is removed from the session cache is the key. -/
def removeSession (c : SessionCache T N E) (key : FactKey T) : SessionCache T N E where
  cache := Function.update c.cache (.key key) fun _ => none
  facts := fun group => if key.getGroup = some group then [] else c.facts group

/-- `insert` with a key of the group, and what it leaves when it returns. -/
def insertFor (g : Owners N) (c : SessionCache T N E) (group : JString) (fact : F)
    (first last : KieSessionSaver.Put N) : Option (SessionCache T N E) :=
  match KieSessionSaver.insert g.rules (g.others group) (g.primary group) fact first last
    ⟨c.cache (.string group), []⟩ with
  | .ok _ fr => some
    { cache := Function.update c.cache (.string group) fr.this
      facts := Function.update c.facts group (c.facts group ++ [fact]) }
  | .error _ _ => none

/-- The session cache through calls that return. An insert with a key without a group throws, since
the map of the locks takes no `null`. -/
def lts (g : Owners N) : Lts (SessionCache T N E) (Action T N F) where
  step
    | c, .insert key fact first last => key.getGroup.bind fun group =>
      insertFor g c group fact first last
    | c, .removeSession key => some (c.removeSession key)

/-- The session of every group has the facts that were inserted since its last removal, at all
owners of the group, and there is no session without one. -/
def HoldsFacts (H : FactHistory E) (g : Owners N) (c : SessionCache T N E) : Prop :=
  ∀ group, (∀ o ∈ g.of group, Entry.history H (c.cache (.string group) o) = c.facts group) ∧
    (c.facts group = [] → ∀ o, c.cache (.string group) o = none)

/-- A removal leaves no entry for the group of its key, and the entries of all other groups as they
were. -/
def Removes (c : SessionCache T N E) : Action T N F → Prop
  | .insert _ _ _ _ => True
  | .removeSession key => ∀ group,
    if key.getGroup = some group then ∀ o, (c.removeSession key).cache (.string group) o = none
    else (c.removeSession key).cache (.string group) = c.cache (.string group)

/-- No session is in the cache when it is to be removed. -/
def Absent (c : SessionCache T N E) : Action T N F → Prop
  | .insert _ _ _ _ => True
  | .removeSession key => ∀ group, key.getGroup = some group →
    ∀ o, c.cache (.string group) o = none

variable {H : FactHistory E} {g : Owners N} {c c' : SessionCache T N E}
  {actions : List (Action T N F)}

omit [Fact F] [DecidableEq N] in
/-- A removal changes no entry of a group. -/
theorem cache_removeSession (c : SessionCache T N E) (key : FactKey T) (group : JString) :
    (c.removeSession key).cache (.string group) = c.cache (.string group) := by
  have hne : CacheKey.string group ≠ .key key := by simp
  change Function.update c.cache (.key key) (fun _ => none) (.string group) = _
  rw [Function.update_of_ne hne]

omit [Fact F] [DecidableEq N] in
/-- A removal does what it should exactly when there is nothing to remove. -/
theorem removes_iff_absent (c : SessionCache T N E) (action : Action T N F) :
    c.Removes action ↔ c.Absent action := by
  cases action with
  | insert key fact first last => exact Iff.rfl
  | removeSession key =>
    refine forall_congr' fun group => ?_
    rw [cache_removeSession]
    by_cases hgroup : key.getGroup = some group
    · simp [hgroup]
    · simp [hgroup]

/-- What the runs keep: the owners' histories, the entries of groups without facts, and live
sessions at the primary owners. -/
structure Inv (H : FactHistory E) (g : Owners N) (c : SessionCache T N E) : Prop where
  /-- The sessions have the facts. -/
  holds : c.HoldsFacts H g
  /-- The primary owners have the session objects. -/
  live : ∀ group, c.cache (.string group) (g.primary group) = none ∨
    ∃ k, c.cache (.string group) (g.primary group) = some (.live k)

omit [Fact F] [DecidableEq N] [DecidableEq T] in
/-- An empty cache meets the invariant. -/
theorem inv_empty : ({} : SessionCache T N E).Inv H g :=
  ⟨fun _ => ⟨fun _ _ => rfl, fun _ _ => rfl⟩, fun _ => .inl rfl⟩

/-- An insert that returns adds its fact to the session of its group. -/
theorem Inv.insertFor (hi : c.Inv H g) {group : JString} {fact : F}
    {first last : KieSessionSaver.Put N} (h : insertFor g c group fact first last = some c') :
    c'.Inv H g := by
  unfold SessionCache.insertFor at h
  split at h
  · rename_i fr hinsert
    cases h
    have hmem : g.primary group ∉ g.others group := (List.nodup_cons.1 (g.nodup group)).1
    obtain ⟨hlive, hhistory⟩ := KieSessionSaver.insert_ok (H := H) hmem (hi.live group) hinsert
    refine ⟨fun group' => ?_, fun group' => ?_⟩
    · by_cases hgroup : group' = group
      · subst hgroup
        simp only [Function.update_self]
        refine ⟨fun o ho => ?_, fun hnil => absurd hnil (by simp)⟩
        rw [hhistory o ho, (hi.holds group').1 o ho]
      · have hne : CacheKey.string (T := T) group' ≠ .string group := by simpa using hgroup
        simp only [Function.update_of_ne hne, Function.update_of_ne hgroup]
        exact hi.holds group'
    · by_cases hgroup : group' = group
      · subst hgroup
        simp only [Function.update_self]
        exact .inr hlive
      · have hne : CacheKey.string (T := T) group' ≠ .string group := by simpa using hgroup
        simp only [Function.update_of_ne hne]
        exact hi.live group'
  · cases h

omit [Fact F] [DecidableEq N] in
/-- A removal where there is no session keeps the invariant. -/
theorem Inv.removeSession (hi : c.Inv H g) {key : FactKey T}
    (habsent : c.Absent (F := F) (.removeSession key)) : (c.removeSession key).Inv H g := by
  refine ⟨fun group => ?_, fun group => ?_⟩
  · rw [cache_removeSession]
    by_cases hgroup : key.getGroup = some group
    · have hnone := habsent group hgroup
      have hfacts : (c.removeSession key).facts group = [] := if_pos hgroup
      rw [hfacts]
      exact ⟨fun o _ => by rw [hnone o]; rfl, fun _ => hnone⟩
    · have hfacts : (c.removeSession key).facts group = c.facts group := if_neg hgroup
      rw [hfacts]
      exact hi.holds group
  · rw [cache_removeSession]
    exact hi.live group

/-- A call keeps the invariant, a removal where there is no session. -/
theorem Inv.step (hi : c.Inv H g) {action : Action T N F} (habsent : c.Absent action)
    (h : (lts g).step c action = some c') : c'.Inv H g := by
  cases action with
  | insert key fact first last =>
    obtain ⟨group, -, h⟩ := Option.bind_eq_some_iff.1 h
    exact hi.insertFor h
  | removeSession key =>
    cases h
    exact hi.removeSession habsent

/-- A run from an empty session cache removes what it should, and the session of every group has the
facts inserted since its last removal, in order, exactly when no session is there when it is to be
removed. -/
theorem removes_iff (H : FactHistory E) (g : Owners N) (actions : List (Action T N F)) :
    (lts g).Guarded Removes ({} : SessionCache T N E) actions ∧
        (lts g).Always (HoldsFacts H g) ({} : SessionCache T N E) actions ↔
      (lts g).Guarded Absent ({} : SessionCache T N E) actions := by
  have hremoves : ∀ c : SessionCache T N E,
      (lts g).Guarded Removes c actions ↔ (lts g).Guarded Absent c actions := by
    have : (Removes : SessionCache T N E → Action T N F → Prop) = Absent := by
      funext c action
      exact propext (removes_iff_absent c action)
    intro c
    rw [this]
  rw [hremoves]
  refine and_iff_left_of_imp fun habsent => ?_
  exact (lts g).always_of_guarded Absent (Inv H g) (HoldsFacts H g) (fun c hi => hi.holds)
    (fun c action c' hi hok hstep => hi.step hok hstep) inv_empty habsent

/-- Two owners of every group. -/
def twoOwners : Owners Bool where
  rules _ := Recorder.manager (jstr "1")
  primary _ := false
  others _ := [true]
  nodup _ := by decide

/-- The session of a player is removed, and stays in the cache with its fact. -/
theorem removeSession_keeps_session :
    ((lts (E := recorder fun _ _ => .completed) (T := ℕ) twoOwners).exec {}
      [.insert (.gameplayKey (some (jstr "1")) (some (jstr "p"))) ⟨7⟩ {} {},
        .removeSession (.gameplayKey (some (jstr "2")) (some (jstr "p")))]).any (fun c =>
          c.facts (jstr "p") = [] && Entry.history (recorderHistory _)
            (c.cache (.string (jstr "p")) false) = [⟨7⟩]) = true := by
  decide +kernel

end SessionCache

end Hacep
