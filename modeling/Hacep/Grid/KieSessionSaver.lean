import Hacep.Grid.Failover
import Hacep.Session.Failure

/-!
# An insert that fails

`KieSessionSaver.insert` as one call on what the owners of a key hold. The call works in place, and
so do the merges of its puts: an exception keeps what they have changed. What the grid does with a
put that throws is not in the repository, so it is a parameter, `Put`: which of the other owners
have merged the delta all the same, and which owners have stored the value.

A failed insert leaves every owner's history as it was exactly when `FailsCleanly` holds
(`failed_insert_iff`). A live session must not have taken the fact. A serialized one must keep its
buffer through the rebuild, and where only the last put has thrown, the put must not have stored the
rebuilt session, nor changed what another owner has. Then the owners still agree, and go on to agree
in every later run; otherwise some owner has a fact that it should not have, or lacks one.
-/

namespace Hacep

open Java

variable {N F : Type} [DecidableEq N] [Fact F] {E : KieEngine F}

/-- A call on what the owners of a key hold. -/
abbrev CacheCall (N : Type) (E : KieEngine F) (α : Type) := Method PEmpty (N → Entry E) α

namespace Entry

/-- A call on the live session that an entry holds, in place. -/
def onLive (m : Call E (HAKieSession E) Unit) : Call E (Entry E) Unit := fun fr =>
  match fr.this with
  | some (.live h) =>
    match m ⟨h, fr.out⟩ with
    | .ok _ ⟨h', out⟩ => .ok () ⟨some (.live h'), out⟩
    | .error e ⟨h', out⟩ => .error e ⟨some (.live h'), out⟩
  | _ => .error .nullPointerException fr

/-- The merge of a delta into what an owner holds. -/
def merged (rm : RulesManager) (delta : Delta F) (d : Entry E) :
    EStateM.Result Throwable (Frame (Delivery E.Message) (Entry E)) Unit :=
  delta.merge rm ⟨d, []⟩

/-- What an owner holds that has merged a delta in a put that throws. A serialized session has been
changed in place; any other value is replaced only where the owner stores the one that it has
merged. -/
def mergedAlone (rm : RulesManager) (delta : Delta F) (stored : Bool) (d : Entry E) : Entry E :=
  match d with
  | some (.serialized _) => (finalFrame (d.merged rm delta)).this
  | _ => if stored then (finalFrame (d.merged rm delta)).this else d

/-- The merge of a fact in a put that throws leaves the facts that the owner has: the owner has a
serialized session, and the upgrade before its `add` throws and spills nothing; or the merge makes a
new session, and throws or is not stored. -/
def Spared (rm : RulesManager) (fact : F) (stored : Bool) : Entry E → Prop
  | some (.serialized s) =>
    (∀ fr, HAKieSerializedSession.upgradeIfNeeded (E := E) rm ⟨s, []⟩ ≠ .ok () fr) ∧
      ¬HAKieSerializedSession.Spills (E := E) rm ⟨s, []⟩
  | d => stored = false ∨ thrown (d.merged rm (.fact fact)) ≠ none

omit [Fact F] in
/-- A call on a live session in place leaves a live session. -/
theorem onLive_eq_ok {m : Call E (HAKieSession E) Unit} {k : HAKieSession E}
    {out : List (Delivery E.Message)} {fr' : Frame (Delivery E.Message) (Entry E)}
    (h : onLive m ⟨some (.live k), out⟩ = .ok () fr') :
    ∃ fr₁, m ⟨k, out⟩ = .ok () fr₁ ∧ fr'.this = some (.live fr₁.this) := by
  simp only [onLive] at h
  split at h <;> cases h
  exact ⟨_, ‹_›, rfl⟩

omit [Fact F] in
theorem onLive_eq_error {m : Call E (HAKieSession E) Unit} {k : HAKieSession E}
    {out : List (Delivery E.Message)} {e : Throwable}
    {fr' : Frame (Delivery E.Message) (Entry E)}
    (h : onLive m ⟨some (.live k), out⟩ = .error e fr') :
    ∃ fr₁, m ⟨k, out⟩ = .error e fr₁ ∧ fr'.this = some (.live fr₁.this) := by
  simp only [onLive] at h
  split at h <;> cases h
  exact ⟨_, ‹_›, rfl⟩

end Entry

namespace KieSessionSaver

/-- A call on what one owner holds. -/
def onOwner {α : Type} (o : N) (m : Call E (Entry E) α) : CacheCall N E α := fun fr =>
  match m ⟨fr.this o, []⟩ with
  | .ok a ⟨entry, _⟩ => .ok a { fr with this := Function.update fr.this o entry }
  | .error e ⟨entry, _⟩ => .error e { fr with this := Function.update fr.this o entry }

/-- A call on a session that is in no cache. -/
def onHeld (h : HAKieSession E) (m : Call E (HAKieSession E) Unit) :
    CacheCall N E (HAKieSession E) := fun fr =>
  match m ⟨h, []⟩ with
  | .ok _ ⟨h', _⟩ => .ok h' fr
  | .error e _ => .error e fr

/-- How the grid carries out a put. -/
structure Put (N : Type) where
  /-- The exception of the grid itself, where it throws one. -/
  refused : Option Throwable := none
  /-- The other owners that such a put has reached. A put without an exception of the grid reaches
  all of them. -/
  reached : N → Bool := fun _ => true
  /-- The owners that store the value of a put that throws: the primary owner the value itself, the
  others what they have merged. -/
  stored : N → Bool := fun _ => false

/-- The put has another owner merge its delta. -/
def Put.reaches (put : Put N) (o : N) : Bool := put.refused.isNone || put.reached o

variable (rules : N → RulesManager) (others : List N) (primary : N)

/-- The exception of a put, where it throws one: the grid's own, or that of a merge. -/
def Put.exception (put : Put N) (delta : Delta F) (entry : N → Entry E) : Option Throwable :=
  put.refused.or (others.findSome? fun o => thrown ((entry o).merged (rules o) delta))

/-- What the owners hold after a put that returns. -/
def committed (h : HAKieSession E) (entry : N → Entry E) (o : N) : Entry E :=
  if o = primary then some (.live h.commit)
  else if o ∈ others then (finalFrame ((entry o).merged (rules o) h.delta)).this
  else entry o

/-- What the owners hold after a put that throws. -/
def aborted (put : Put N) (h : HAKieSession E) (entry : N → Entry E) (o : N) : Entry E :=
  if o = primary then if put.stored o then some (.live h) else entry o
  else if o ∈ others ∧ put.reaches o then (entry o).mergedAlone (rules o) h.delta (put.stored o)
  else entry o

/-- `sessionCache.put` of a live session. -/
def put (p : Put N) (h : HAKieSession E) : CacheCall N E Unit := fun fr =>
  match p.exception rules others h.delta fr.this with
  | none => .ok () { fr with this := committed rules others primary h fr.this }
  | some e => .error e { fr with this := aborted rules others primary p h fr.this }

/-- The insertion into the live session that the primary owner holds, and its put. -/
def insertStored (fact : F) (last : Put N) : CacheCall N E Unit := do
  onOwner primary (Entry.onLive (HAKieSession.insert (rules primary) fact))
  let entry ← this
  match entry primary with
  | some (.live h) => put rules others primary last h
  | _ => throw .nullPointerException

/-- `KieSessionSaver.insert`, with the two puts that it may make. -/
def insert (fact : F) (first last : Put N) : CacheCall N E Unit := do
  let entry ← this
  match entry primary with
  | none => do
    put rules others primary first {}
    insertStored rules others primary fact last
  | some (.live _) => insertStored rules others primary fact last
  | some (.serialized s) => do
    let h ← onOwner primary (Entry.onSerialized s (HAKieSerializedSession.rebuild (rules primary)))
    let h ← onHeld h (HAKieSession.insert (rules primary) fact)
    put rules others primary last h

/-- The rebuild of a stored session returns, and the insertion into the session that it makes. -/
def Inserts (rm : RulesManager) (fact : F) (s : HAKieSerializedSession F) : Prop :=
  ∃ (h : HAKieSession E) (fr : Frame (Delivery E.Message) (HAKieSerializedSession F))
    (fr' : Frame (Delivery E.Message) (HAKieSession E)),
    HAKieSerializedSession.rebuild rm ⟨s, []⟩ = .ok h fr ∧
      HAKieSession.insert rm fact ⟨h, []⟩ = .ok () fr'

/-- The insert fails before anything is changed that a history depends on. Where there is no
session, the first put throws, or the new session does not take the fact; a live session does not
take it. The rebuild of a serialized session keeps its facts, and where it returns and the insertion
does, the last put leaves the facts of every other owner that it reaches, and does not store the
rebuilt session at the primary owner. (Where it stores it, a snapshot may have lost just the fact
that is now there again.) -/
def FailsCleanly (H : FactHistory E) (fact : F) (first last : Put N) (entry : N → Entry E) : Prop :=
  match entry primary with
  | none => first.exception rules others .empty entry ≠ none ∨
      ¬({} : HAKieSession E).Takes H (rules primary) fact
  | some (.live h) => ¬h.Takes H (rules primary) fact
  | some (.serialized s) =>
    ¬Inserts (E := E) (rules primary) fact s ∧
        HAKieSerializedSession.RebuildKeeps (E := E) (rules primary) ⟨s, []⟩ ∨
      Inserts (E := E) (rules primary) fact s ∧
        (∀ o ∈ others, o ≠ primary → last.reaches o = true →
          (entry o).Spared (rules o) fact (last.stored o)) ∧
        if last.stored primary
        then HAKieSerializedSession.LosesToSnapshot H (rules primary) fact ⟨s, []⟩
        else HAKieSerializedSession.RebuildKeeps (E := E) (rules primary) ⟨s, []⟩

variable {rules others primary} {H : FactHistory E} {e : Throwable} {fact : F}
  {fr fr' : Frame PEmpty (N → Entry E)} {p : Put N}

/-! ## Puts -/

omit [Fact F] in
/-- A list of facts with one more is another list. -/
theorem append_singleton_ne {l : List F} {f : F} : l ++ [f] ≠ l := fun h => by
  have := congrArg List.length h
  simp at this

omit [DecidableEq N] in
/-- The merge of a delta without facts keeps the history, whether it returns or throws. -/
theorem merged_empty_history (rm : RulesManager) (d : Entry E) :
    Entry.history H (finalFrame (d.merged rm .empty)).this = Entry.history H d := by
  cases hmerge : d.merged rm .empty with
  | ok u fr =>
    have := Delta.merge_ok (H := H) hmerge
    rwa [Delta.facts, List.append_nil] at this
  | error e fr =>
    cases d with
    | some v => cases hmerge
    | none => rw [finalFrame, Delta.merge_error hmerge (by simp)]

omit [DecidableEq N] in
theorem mergedAlone_empty_history (rm : RulesManager) (stored : Bool) (d : Entry E) :
    Entry.history H (d.mergedAlone rm .empty stored) = Entry.history H d := by
  unfold Entry.mergedAlone
  split
  · exact merged_empty_history rm _
  · split
    · exact merged_empty_history rm _
    · rfl

omit [DecidableEq N] in
/-- An `add` to a serialized session that an owner holds is done in place. -/
theorem merged_serialized (rm : RulesManager) (s : HAKieSerializedSession F) :
    (finalFrame (Entry.merged (E := E) rm (.fact fact) (some (.serialized s)))).this =
      some (.serialized
        (finalFrame (HAKieSerializedSession.add (E := E) rm fact ⟨s, []⟩)).this) := by
  simp only [Entry.merged, Delta.merge, bind_of_ok this_run, Entry.onSerialized]
  rcases HAKieSerializedSession.add (E := E) rm fact ⟨s, []⟩ with ⟨u, fr⟩ | ⟨e, fr⟩ <;> rfl

omit [DecidableEq N] in
/-- A merge that makes a new session leaves the history exactly when it throws or its result is not
stored. -/
theorem mergedNew_history_iff {rm : RulesManager} {stored : Bool} {d : Entry E}
    (hd : ∀ s, d ≠ some (.serialized s)) :
    Entry.history H (if stored then (finalFrame (d.merged rm (.fact fact))).this else d) =
        Entry.history H d ↔ stored = false ∨ thrown (d.merged rm (.fact fact)) ≠ none := by
  cases stored with
  | false => simp
  | true =>
    cases hmerge : d.merged rm (.fact fact) with
    | ok u fr =>
      have := Delta.merge_ok (H := H) hmerge
      simp [finalFrame, thrown, this, Delta.facts]
    | error e fr =>
      have := Delta.merge_error hmerge hd
      simp [finalFrame, thrown, this]

omit [DecidableEq N] in
/-- A merge in a put that throws leaves the history exactly when it spares the owner. -/
theorem mergedAlone_history_iff {rm : RulesManager} {stored : Bool} {d : Entry E} :
    Entry.history H (d.mergedAlone rm (.fact fact) stored) = Entry.history H d ↔
      d.Spared rm fact stored := by
  match d with
  | some (.serialized s) =>
    rw [Entry.mergedAlone, merged_serialized]
    exact HAKieSerializedSession.add_history_iff H rm fact ⟨s, []⟩
  | none => exact mergedNew_history_iff (by simp)
  | some (.live k) => exact mergedNew_history_iff (by simp)

/-- A put that returns has thrown no exception. -/
theorem put_eq_ok {k : HAKieSession E} (h : put rules others primary p k fr = .ok () fr') :
    p.exception rules others k.delta fr.this = none ∧
      fr'.this = committed rules others primary k fr.this := by
  unfold put at h
  split at h <;> cases h
  exact ⟨‹_›, rfl⟩

theorem put_eq_error {k : HAKieSession E} (h : put rules others primary p k fr = .error e fr') :
    p.exception rules others k.delta fr.this = some e ∧
      fr'.this = aborted rules others primary p k fr.this := by
  unfold put at h
  split at h <;> cases h
  exact ⟨‹_›, rfl⟩

omit [DecidableEq N] in
/-- Where a put returns, so have the merges at all other owners. -/
theorem merged_of_put {delta : Delta F} {entry : N → Entry E} {o : N} (ho : o ∈ others)
    (h : p.exception rules others delta entry = none) :
    ∃ fr₁, (entry o).merged (rules o) delta = .ok () fr₁ := by
  simp only [Put.exception, Option.or_eq_none_iff, List.findSome?_eq_none_iff] at h
  have hthrown := h.2 o ho
  cases hmerge : (entry o).merged (rules o) delta with
  | ok u fr₁ => exact ⟨fr₁, rfl⟩
  | error e fr₁ =>
    rw [hmerge] at hthrown
    cases hthrown

/-- The put of a new session keeps all histories, and the primary owner holds the new session. -/
theorem put_new_ok (hentry : fr.this primary = none)
    (h : put rules others primary p ({} : HAKieSession E) fr = .ok () fr') :
    fr'.this primary = some (.live {}) ∧
      ∀ o, Entry.history H (fr'.this o) = Entry.history H (fr.this o) := by
  rw [(put_eq_ok h).2]
  refine ⟨if_pos rfl, fun o => ?_⟩
  unfold committed
  split
  · subst o
    rw [hentry]
    rfl
  · split
    · exact merged_empty_history (rules o) (fr.this o)
    · rfl

/-- So does a put of a new session that throws, wherever it stores the session. -/
theorem put_new_error (hentry : fr.this primary = none)
    (h : put rules others primary p ({} : HAKieSession E) fr = .error e fr') (o : N) :
    Entry.history H (fr'.this o) = Entry.history H (fr.this o) := by
  rw [(put_eq_error h).2]
  unfold aborted
  split
  · subst o
    split
    · rw [hentry]
      rfl
    · rfl
  · split
    · exact mergedAlone_empty_history (rules o) _ (fr.this o)
    · rfl

/-! ## Inserts -/

omit [Fact F] in
theorem onOwner_eq_ok {α : Type} {a : α} {o : N} {m : Call E (Entry E) α}
    (h : onOwner o m fr = .ok a fr') :
    ∃ fr₁, m ⟨fr.this o, []⟩ = .ok a fr₁ ∧ fr'.this = Function.update fr.this o fr₁.this := by
  unfold onOwner at h
  split at h <;> cases h
  exact ⟨_, ‹_›, rfl⟩

omit [Fact F] in
theorem onOwner_eq_error {α : Type} {o : N} {m : Call E (Entry E) α}
    (h : onOwner o m fr = .error e fr') :
    ∃ fr₁, m ⟨fr.this o, []⟩ = .error e fr₁ ∧ fr'.this = Function.update fr.this o fr₁.this := by
  unfold onOwner at h
  split at h <;> cases h
  exact ⟨_, ‹_›, rfl⟩

omit [Fact F] in
/-- What a call on the serialized session of an owner leaves. -/
theorem onOwner_onSerialized_final {α : Type} (entry : N → Entry E) (o : N)
    (s : HAKieSerializedSession F) (m : Call E (HAKieSerializedSession F) α) :
    (finalFrame (onOwner o (Entry.onSerialized s m) ⟨entry, []⟩)).this =
      Function.update entry o (some (.serialized (finalFrame (m ⟨s, []⟩)).this)) := by
  simp only [onOwner, Entry.onSerialized]
  rcases m ⟨s, []⟩ with ⟨a, fr⟩ | ⟨e, fr⟩ <;> rfl

omit [Fact F] in
/-- The histories of all owners are as they were, of which only one has been written to, exactly
when that one's is. -/
theorem histories_update_iff {owners : Finset N} (hp : primary ∈ owners) {entry : N → Entry E}
    {d : Entry E} :
    (∀ o ∈ owners, Entry.history H (Function.update entry primary d o) =
        Entry.history H (entry o)) ↔ Entry.history H d = Entry.history H (entry primary) := by
  constructor
  · intro h
    simpa using h primary hp
  · intro h o _
    by_cases ho : o = primary
    · subst ho
      rwa [Function.update_self]
    · rw [Function.update_of_ne ho]

/-- An insertion into a live session that throws, or whose put throws, leaves the histories as they
were exactly when the session has not taken the fact. -/
theorem insertStored_error {owners : Finset N} (hp : primary ∈ owners) {k : HAKieSession E}
    (hentry : fr.this primary = some (.live k))
    (h : insertStored rules others primary fact p fr = .error e fr') :
    (∀ o ∈ owners, Entry.history H (fr'.this o) = Entry.history H (fr.this o)) ↔
      ¬k.Takes H (rules primary) fact := by
  have hprimary : Entry.history H (fr.this primary) = k.history H := by rw [hentry]; rfl
  have htakes := HAKieSession.insert_history_iff H (rules primary) fact ⟨k, []⟩
  rw [insertStored, bind_eq_error] at h
  rcases h with h | ⟨_, fr₁, h₁, h⟩
  · -- The insertion has thrown: only the session at the primary owner can be another.
    obtain ⟨fr₂, h, hthis⟩ := onOwner_eq_error h
    rw [hentry] at h
    obtain ⟨fr₃, h, hlive⟩ := Entry.onLive_eq_error h
    rw [hthis, histories_update_iff hp, hlive, hprimary]
    rwa [h] at htakes
  · -- The put has thrown: with or without it, that session has the fact.
    obtain ⟨fr₂, h₂, hthis⟩ := onOwner_eq_ok h₁
    rw [hentry] at h₂
    obtain ⟨fr₃, hinsert, hlive⟩ := Entry.onLive_eq_ok h₂
    have hinserted := (HAKieSession.insert_ok (H := H) hinsert).1
    rw [bind_of_ok this_run, hthis, hlive, Function.update_self] at h
    have hleft : Entry.history H (fr'.this primary) = k.history H ++ [fact] := by
      rw [(put_eq_error h).2, aborted, if_pos rfl, hthis, hlive, Function.update_self, ite_self]
      exact hinserted
    rw [hinsert] at htakes
    refine iff_of_false (fun hsame => ?_) fun hnot => ?_
    · exact append_singleton_ne ((hleft.symm.trans (hsame primary hp)).trans hprimary)
    · exact append_singleton_ne (hinserted.symm.trans (htakes.2 hnot))

/-- Where an insert that starts from a serialized session throws, either the rebuild or the
insertion has thrown, and what is left is what the rebuild has made of that session; or the put of
the rebuilt session has thrown. -/
theorem insert_serialized_error {first last : Put N} {entry : N → Entry E}
    {s : HAKieSerializedSession F} (hentry : entry primary = some (.serialized s))
    (h : insert rules others primary fact first last ⟨entry, []⟩ = .error e fr') :
    (¬Inserts (E := E) (rules primary) fact s ∧
        fr'.this = Function.update entry primary (some (.serialized
          (finalFrame (HAKieSerializedSession.rebuild (E := E) (rules primary) ⟨s, []⟩)).this))) ∨
      ∃ (k : HAKieSession E) (fr₁ : Frame (Delivery E.Message) (HAKieSerializedSession F))
        (fr₂ : Frame (Delivery E.Message) (HAKieSession E)),
        HAKieSerializedSession.rebuild (rules primary) ⟨s, []⟩ = .ok k fr₁ ∧
        HAKieSession.insert (rules primary) fact ⟨k, []⟩ = .ok () fr₂ ∧
        fr'.this = aborted rules others primary last fr₂.this
          (Function.update entry primary (some (.serialized fr₁.this))) := by
  have hfinal := onOwner_onSerialized_final entry primary s
    (HAKieSerializedSession.rebuild (E := E) (rules primary))
  rw [insert, bind_of_ok this_run] at h
  simp only [hentry, bind_eq_error] at h
  rcases h with h | ⟨k, fr₁, hrebuild, h⟩
  · -- The rebuild has thrown.
    rw [h] at hfinal
    refine .inl ⟨?_, hfinal⟩
    rintro ⟨k, fr₂, fr₃, hrebuild, -⟩
    simp only [onOwner, Entry.onSerialized, hrebuild] at h
    cases h
  · obtain ⟨fr₂, hserialized, hthis⟩ := onOwner_eq_ok hrebuild
    obtain ⟨fr₃, hrebuilt⟩ : ∃ fr₃,
        HAKieSerializedSession.rebuild (rules primary) ⟨s, []⟩ = .ok k fr₃ := by
      simp only [Entry.onSerialized] at hserialized
      split at hserialized <;> cases hserialized
      exact ⟨_, ‹_›⟩
    rw [hrebuild, hrebuilt] at hfinal
    rcases h with h | ⟨k', fr₄, hinsert, h⟩
    · -- The insertion has thrown, into a session that is in no cache.
      unfold onHeld at h
      split at h <;> cases h
      rename_i herror
      refine .inl ⟨?_, by rw [hrebuilt]; exact hfinal⟩
      rintro ⟨k', fr₅, fr₆, hrebuild', hinsert⟩
      cases hrebuilt.symm.trans hrebuild'
      cases herror.symm.trans hinsert
    · unfold onHeld at hinsert
      split at hinsert <;> cases hinsert
      rename_i hinsert
      refine .inr ⟨k, fr₃, _, hrebuilt, hinsert, ?_⟩
      rw [(put_eq_error h).2]
      exact congrArg _ hfinal

/-- A put of a rebuilt session that throws leaves the histories as they were exactly when it spares
the other owners, and the primary owner has the history from before: that of the session that has
been rebuilt, or of the rebuilt one, where that is stored. -/
theorem aborted_history_iff {owners : Finset N} (hp : primary ∈ owners)
    (hothers : ∀ o ∈ others, o ∈ owners) {entry : N → Entry E} {d : Entry E} {k : HAKieSession E}
    (hdelta : k.delta = .fact fact) :
    (∀ o ∈ owners, Entry.history H (aborted rules others primary p k
        (Function.update entry primary d) o) = Entry.history H (entry o)) ↔
      (∀ o ∈ others, o ≠ primary → p.reaches o = true →
        (entry o).Spared (rules o) fact (p.stored o)) ∧
      (if p.stored primary then k.history H else Entry.history H d) =
        Entry.history H (entry primary) := by
  have hprimary : Entry.history H (aborted rules others primary p k
      (Function.update entry primary d) primary) =
        if p.stored primary then k.history H else Entry.history H d := by
    rw [aborted, if_pos rfl, Function.update_self]
    split <;> rfl
  have hother : ∀ o, o ≠ primary →
      aborted rules others primary p k (Function.update entry primary d) o =
        if o ∈ others ∧ p.reaches o then
          (entry o).mergedAlone (rules o) (.fact fact) (p.stored o) else entry o := by
    intro o ho
    rw [aborted, if_neg ho, Function.update_of_ne ho, hdelta]
  constructor
  · refine fun hsame => ⟨fun o ho hne hreaches => ?_, hprimary.symm.trans (hsame primary hp)⟩
    have := hsame o (hothers o ho)
    rw [hother o hne, if_pos ⟨ho, hreaches⟩] at this
    exact mergedAlone_history_iff.1 this
  · rintro ⟨hspared, hkept⟩ o -
    by_cases ho : o = primary
    · subst ho
      exact hprimary.trans hkept
    · rw [hother o ho]
      split
      · exact mergedAlone_history_iff.2 (hspared o ‹_ ∧ _›.1 ho ‹_ ∧ _›.2)
      · rfl

/-- A failed insert leaves the histories as they were exactly when it fails cleanly. -/
theorem insert_error_iff {owners : Finset N} (hp : primary ∈ owners)
    (hothers : ∀ o ∈ others, o ∈ owners) {first last : Put N} {entry : N → Entry E}
    (h : insert rules others primary fact first last ⟨entry, []⟩ = .error e fr') :
    (∀ o ∈ owners, Entry.history H (fr'.this o) = Entry.history H (entry o)) ↔
      FailsCleanly rules others primary H fact first last entry := by
  unfold FailsCleanly
  cases hentry : entry primary with
  | none =>
    rw [insert, bind_of_ok this_run] at h
    simp only [hentry, bind_eq_error] at h
    rcases h with h | ⟨_, fr₁, hput, h⟩
    · -- The put of the new session has thrown.
      refine iff_of_true (fun o _ => put_new_error hentry h o) (.inl ?_)
      have hexception := (put_eq_error h).1
      rw [show (({} : HAKieSession E).delta : Delta F) = .empty from rfl] at hexception
      simp [hexception]
    · -- The new session is in the cache, without a history.
      obtain ⟨hlive, hhistory⟩ := put_new_ok (H := H) hentry hput
      have hreturned := (put_eq_ok hput).1
      rw [show (({} : HAKieSession E).delta : Delta F) = .empty from rfl] at hreturned
      rw [← insertStored_error (H := H) hp hlive h]
      simp only [hhistory, hreturned, ne_eq, not_true_eq_false, false_or]
  | some v =>
    cases v with
    | live k =>
      rw [insert, bind_of_ok this_run] at h
      simp only [hentry] at h
      exact insertStored_error hp hentry h
    | serialized s =>
      have hkeeps := HAKieSerializedSession.rebuild_history_iff H (rules primary) ⟨s, []⟩
      have hprimary : Entry.history H (entry primary) = s.history H := by rw [hentry]; rfl
      obtain ⟨hnot, hthis⟩ | ⟨k, fr₁, fr₂, hrebuild, hinsert, hthis⟩ :=
        insert_serialized_error hentry h
      · rw [hthis, histories_update_iff hp, hprimary]
        simp only [hnot, not_false_eq_true, true_and, false_and, or_false]
        exact hkeeps
      · -- Only the put has thrown.
        have hinserts : Inserts (E := E) (rules primary) fact s := ⟨k, fr₁, fr₂, hrebuild, hinsert⟩
        obtain ⟨hhistory, hlast⟩ := HAKieSession.insert_ok (H := H) hinsert
        have hdelta : fr₂.this.delta = .fact fact := by rw [HAKieSession.delta, hlast]
        rw [hthis, aborted_history_iff hp hothers hdelta, hprimary]
        simp only [hinserts, not_true_eq_false, false_and, true_and, false_or]
        refine and_congr_right fun _ => ?_
        rw [hrebuild] at hkeeps
        split
        · rw [hhistory]
          exact HAKieSerializedSession.rebuilt_append_iff hrebuild
        · exact hkeeps

/-- A failed insert leaves the history of every owner as it was, so that owners that agreed before
agree in every later run, exactly when it fails cleanly. -/
theorem failed_insert_iff (H : FactHistory E) {owners : Finset N} (hp : primary ∈ owners)
    (hothers : ∀ o ∈ others, o ∈ owners) {first last : Put N} {entry : N → Entry E}
    (h : insert rules others primary fact first last ⟨entry, []⟩ = .error e fr') :
    ((∀ o ∈ owners, Entry.history H (fr'.this o) = Entry.history H (entry o)) ∧
        ∀ l, (∀ o ∈ owners, Entry.history H (entry o) = l) →
          ∀ (actions : List (Grid.Action Unit N F)) (g : Grid Unit N E),
            (Grid.lts E).exec ⟨rules, fun _ => ⟨owners, fr'.this, .idle, l⟩⟩ actions = some g →
            (g.slot ()).pc = .idle → ∀ o ∈ owners,
              Entry.history H ((g.slot ()).entry o) = l ++ Grid.facts () actions) ↔
      FailsCleanly rules others primary H fact first last entry := by
  rw [← insert_error_iff (H := H) hp hothers h]
  constructor
  · exact fun hsame => hsame.1
  · intro hsame
    refine ⟨hsame, fun l hl actions g hrun hidle o ho => ?_⟩
    have hstart : ∀ _ : Unit, (⟨owners, fr'.this, .idle, l⟩ : Slot N E).Inv H :=
      fun _ => ⟨trivial, fun o ho => (hsame o ho).trans (hl o ho)⟩
    have := Grid.agree_of_exec hstart hrun hidle ho
    simpa [Slot.pending] using this

/-- An insert of a reading into an empty cache with two owners. -/
def firstInsert (value : UInt8) :
    EStateM.Result Throwable (Frame PEmpty (Bool → Entry (recorder fun _ _ => .completed))) Unit :=
  insert (fun _ => Recorder.manager (jstr "1")) [true] false ⟨value⟩ {} {} ⟨fun _ => none, []⟩

/-- What an owner has after a call that has thrown. -/
def leftAt (o : Bool) :
    EStateM.Result Throwable (Frame PEmpty (Bool → Entry (recorder fun _ _ => .completed))) Unit →
      Option (List Reading)
  | .ok _ _ => none
  | .error _ fr => some (Entry.history (recorderHistory _) (fr.this o))

/-- A reading without an instant is not taken. -/
theorem failed_insert_iff_noInstant :
    leftAt false (firstInsert 255) = some [] ∧ leftAt true (firstInsert 255) = some [] := by
  have hthrows : (leftAt false (firstInsert 255)).isSome := by decide +kernel
  cases h : firstInsert 255 with
  | ok a fr' =>
    rw [h] at hthrows
    cases hthrows
  | error e fr' =>
    have hclean : FailsCleanly (E := recorder fun _ _ => .completed)
        (fun _ => Recorder.manager (jstr "1")) [true] false (recorderHistory _) ⟨255⟩ {} {}
        fun _ => none := by
      refine .inr ?_
      rintro ⟨_, _, _, -, hinstant, -⟩
      cases hinstant
    have hsame := ((failed_insert_iff (recorderHistory _)
      (show false ∈ ({false, true} : Finset Bool) by decide) (by decide) h).2 hclean).1
    exact ⟨congrArg some (hsame false (by decide)), congrArg some (hsame true (by decide))⟩

/-- A reading at which a rule throws stays at the primary owner and reaches no other. -/
theorem firstInsert_halfApplied :
    leftAt false (firstInsert 253) = some [⟨253⟩] ∧ leftAt true (firstInsert 253) = some [] := by
  decide +kernel

end KieSessionSaver

end Hacep
