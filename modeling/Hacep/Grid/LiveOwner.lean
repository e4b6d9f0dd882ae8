import Hacep.Grid.Crash

/-!
# One live session for a key

A put leaves a live session at its primary owner, and the merge of its delta leaves a serialized one
at every other owner. So between two inserts of a key no two owners hold a live session, whichever
owners have taken the inserts and whatever joins, crashes, snapshots and updates have run in
between. While an insert is under way its primary owner may hold one, and one other owner, that of
the last insert, until it has merged.

The invariant `Slot.OneLive` names the other owner. What is live at an owner other than the primary
one was live there before (`OneLive.of_live`); only the put of an inserted session, when all others
have merged, moves the name.
-/

namespace Hacep

open Java

variable {K N F : Type} [DecidableEq K] [DecidableEq N] {E : KieEngine F}

/-- The entry is a live session. -/
def Entry.isLive : Entry E → Bool
  | some (.live _) => true
  | _ => false

/-- A transfer makes a serialized session. -/
theorem Entry.isLive_of_transfer {codec : FactCodec F} {rm rm' : RulesManager} {e e' : Entry E}
    (h : e.transfer codec rm rm' = some e') : e'.isLive = false := by
  cases e with
  | none =>
    cases h
    rfl
  | some v =>
    simp only [transfer, Option.bind_eq_bind, Option.bind_eq_some_iff] at h
    obtain ⟨bytes, -, ⟨s, rest⟩, -, h⟩ := h
    split at h <;> cases h
    rfl

/-- An update of a node's container keeps what is live. -/
theorem Entry.isLive_migrate (r : ReleaseId) (e : Entry E) :
    isLive (e.map (DeltaAware.migrate r)) = e.isLive := by
  rcases e with _ | _ | _ <;> rfl

/-- A merge leaves a live session only where there was one and the delta brings no fact. -/
theorem Delta.isLive_merge [Fact F] {rm : RulesManager} {delta : Delta F}
    {fr fr' : Frame (Delivery E.Message) (Entry E)} (h : delta.merge rm fr = .ok () fr')
    (hlive : fr'.this.isLive = true) : delta = .empty ∧ fr.this.isLive = true := by
  obtain ⟨d, out⟩ := fr
  rw [Delta.merge, bind_of_ok this_run] at h
  cases delta with
  | empty =>
    cases d with
    | some v =>
      cases h
      exact ⟨rfl, hlive⟩
    | none =>
      simp only [bind_eq_ok, lift_eq_ok, modifyThis_run] at h
      obtain ⟨s, _, ⟨-, rfl⟩, h⟩ := h
      cases h
      cases hlive
  | fact f =>
    rcases d with _ | (h₀ | s)
    · simp only [bind_eq_ok, lift_eq_ok, modifyThis_run, onLocal_eq_ok] at h
      obtain ⟨s, _, ⟨-, rfl⟩, s', fr₂, -, h⟩ := h
      cases h
      cases hlive
    · simp only [bind_eq_ok, lift_eq_ok, modifyThis_run, onLocal_eq_ok] at h
      obtain ⟨s, _, ⟨-, rfl⟩, s', fr₂, -, h⟩ := h
      cases h
      cases hlive
    · simp only [Entry.onSerialized] at h
      split at h <;> cases h
      cases hlive

/-- What is known of the live sessions at a point of an insert: the put of an inserted session ships
its fact, and an owner whose session is live has still to merge it. -/
def Pc.Live (owners : Finset N) (entry : N → Entry E) : Pc N E → Prop
  | .inserted p _ .stored => ∀ h, entry p = some (.live h) → h.lastFact ≠ none
  | .inserted _ _ (.rebuilt h _) => h.lastFact ≠ none
  | .shipping p _ delta left last => last = true → delta ≠ .empty ∧
      ∀ o ∈ owners, (entry o).isLive = true → o ≠ p → o ∈ left
  | _ => True

omit [DecidableEq N] in
/-- It holds with fewer live sessions, where the primary owner holds the same one. -/
theorem Pc.Live.mono {owners owners' : Finset N} {entry entry' : N → Entry E} {pc : Pc N E}
    (h : pc.Live owners entry)
    (hprimary : ∀ p k, pc.primary = some p → entry' p = some (.live k) → entry p = some (.live k))
    (hlive : ∀ o ∈ owners', (entry' o).isLive = true → o ∈ owners ∧ (entry o).isLive = true) :
    pc.Live owners' entry' := by
  cases pc with
  | idle | fetched | ready => trivial
  | inserted p f session =>
    cases session with
    | stored => exact fun k hk => h k (hprimary p k rfl hk)
    | rebuilt => exact h
  | shipping p f delta left last =>
    intro hlast
    obtain ⟨hdelta, hleft⟩ := h hlast
    exact ⟨hdelta, fun o ho hl => hleft o (hlive o ho hl).1 (hlive o ho hl).2⟩

namespace Slot

/-- Besides the primary owner of the insert under way, only the one owner may hold a live session.
-/
structure OneLive (s : Slot N E) (old : Option N) : Prop where
  /-- An insert is at an owner. -/
  primary : ∀ p, s.pc.primary = some p → p ∈ s.owners
  /-- What is live is at that owner or at the primary one. -/
  live : ∀ o ∈ s.owners, (s.entry o).isLive = true → s.pc.primary ≠ some o → old = some o
  /-- The insert is where it may be. -/
  pc : s.pc.Live s.owners s.entry

variable {s s' : Slot N E} {old : Option N} {rules : N → RulesManager}

omit [DecidableEq N] in
/-- Where the owners other than the primary one that are live were so before, it is the same owner.
-/
theorem OneLive.of_live (h : s.OneLive old)
    (hprimary : ∀ p, s'.pc.primary = some p → p ∈ s'.owners)
    (hlive : ∀ o ∈ s'.owners, (s'.entry o).isLive = true → s'.pc.primary ≠ some o →
      o ∈ s.owners ∧ (s.entry o).isLive = true ∧ s.pc.primary ≠ some o)
    (hpc : s'.pc.Live s'.owners s'.entry) : s'.OneLive old := by
  refine ⟨hprimary, fun o ho hl hne => ?_, hpc⟩
  obtain ⟨ho', hl', hne'⟩ := hlive o ho hl hne
  exact h.live o ho' hl' hne'

/-- A put at the primary owner. -/
theorem OneLive.ship (h : s.OneLive old) {p : N} (hp : s.pc.primary = some p) {f : F}
    {k : HAKieSession E} {last : Bool} (hk : last = true → k.lastFact ≠ none) :
    (s.ship p f k last).OneLive old := by
  have howner : p ∈ s.owners := h.primary p hp
  have hother : ∀ o, o ≠ p → (s.ship p f k last).entry o = s.entry o := fun o ho =>
    entry_setEntry_of_ne s ho _
  refine h.of_live (fun q hq => ?_) (fun o ho hl hne => ?_) fun hlast => ⟨?_, fun o ho _ hop => ?_⟩
  · cases hq
    exact howner
  · have hop : o ≠ p := fun hop => hne (congrArg some hop.symm)
    rw [hother o hop] at hl
    exact ⟨ho, hl, fun hq => hop (Option.some.inj (hq.symm.trans hp))⟩
  · show k.delta ≠ .empty
    unfold HAKieSession.delta
    cases hfact : k.lastFact with
    | none => exact absurd hfact (hk hlast)
    | some f' => exact fun h => by cases h
  · exact Finset.mem_erase.2 ⟨hop, ho⟩

/-- A change of what the primary owner holds, and of where the insert is there. -/
theorem OneLive.atPrimary (h : s.OneLive old) {p : N} (hp : s.pc.primary = some p) (e : Entry E)
    (pc : Pc N E) (hpc : pc.primary = some p) (hlive : pc.Live s.owners (s.setEntry p e).entry) :
    ({ s.setEntry p e with pc := pc } : Slot N E).OneLive old := by
  refine h.of_live (fun q hq => ?_) (fun o ho hl hne => ?_) hlive
  · exact Option.some.inj (hpc.symm.trans hq) ▸ h.primary p hp
  · have hop : o ≠ p := fun hop => hne (hpc.trans (congrArg some hop.symm))
    rw [show ({ s.setEntry p e with pc := pc } : Slot N E).entry o = s.entry o from
      entry_setEntry_of_ne s hop _] at hl
    exact ⟨ho, hl, fun hq => hop (Option.some.inj (hq.symm.trans hp))⟩

omit [DecidableEq N] in
/-- A change of the owners and of what they hold, with no live session more. -/
theorem OneLive.mono {owners : Finset N} {entry : N → Entry E} (h : s.OneLive old)
    (hprimary : ∀ p, s.pc.primary = some p → p ∈ owners)
    (hsame : ∀ p k, s.pc.primary = some p → entry p = some (.live k) →
      s.entry p = some (.live k))
    (hlive : ∀ o ∈ owners, (entry o).isLive = true → o ∈ s.owners ∧ (s.entry o).isLive = true) :
    ({ s with owners := owners, entry := entry } : Slot N E).OneLive old :=
  h.of_live hprimary (fun o ho hl hne => ⟨(hlive o ho hl).1, (hlive o ho hl).2, hne⟩)
    (h.pc.mono hsame hlive)

/-- A write of what is not live. -/
theorem OneLive.setEntry (h : s.OneLive old) {o : N} {e : Entry E} (he : e.isLive = false) :
    (s.setEntry o e).OneLive old := by
  have hne : ∀ o', ((s.setEntry o e).entry o').isLive = true → o' ≠ o := by
    rintro o' hl rfl
    rw [entry_setEntry_self, he] at hl
    cases hl
  refine h.mono h.primary (fun p k _ hk => ?_) fun o' ho' hl => ⟨ho', ?_⟩
  · have hpo : p ≠ o := hne p (by rw [show (s.setEntry o e).entry p = _ from hk]; rfl)
    exact (entry_setEntry_of_ne s hpo e).symm.trans hk
  · rw [← entry_setEntry_of_ne s (hne o' hl) e]
    exact hl

/-- A new owner holds no live session. -/
theorem OneLive.join {codec : FactCodec F} {p n : N} (h : s.OneLive old)
    (hs : s.join codec rules p n = some s') : s'.OneLive old := by
  simp only [Slot.join] at hs
  split at hs
  · obtain ⟨e, he, rfl⟩ := Option.map_eq_some_iff.1 hs
    have hset := h.setEntry (o := n) (Entry.isLive_of_transfer he)
    refine hset.mono (fun q hq => Finset.mem_insert_of_mem (hset.primary q hq))
      (fun _ _ _ hk => hk) fun o ho hl => ⟨?_, hl⟩
    refine Finset.mem_of_mem_insert_of_ne ho fun hon => ?_
    rw [hon, entry_setEntry_self, Entry.isLive_of_transfer he] at hl
    cases hl
  · cases hs

/-- A crash takes live sessions away, and the insert of its node. -/
theorem OneLive.crash (h : s.OneLive old) (n : N) : (s.crash n).OneLive old := by
  have hentry : ∀ o ∈ s.owners.erase n, (s.crash n).entry o = s.entry o := fun o ho =>
    Function.update_of_ne (Finset.ne_of_mem_erase ho) ..
  by_cases hp : s.pc.primary = some n
  · have hpc : (s.crash n).pc = .idle := if_pos hp
    refine h.of_live (fun q hq => ?_) (fun o ho hl _ => ?_) (by rw [hpc]; trivial)
    · rw [hpc] at hq
      cases hq
    · rw [hentry o ho] at hl
      refine ⟨Finset.mem_of_mem_erase ho, hl, fun hq => ?_⟩
      exact Finset.ne_of_mem_erase ho (Option.some.inj (hq.symm.trans hp))
  · have hpc : (s.crash n).pc = s.pc.lose n := if_neg hp
    have hprimary : (s.crash n).pc.primary = s.pc.primary := by
      rw [hpc]
      cases s.pc <;> rfl
    refine h.of_live (fun q hq => ?_) (fun o ho hl hne => ?_) ?_
    · rw [hprimary] at hq
      exact Finset.mem_erase.2 ⟨fun hqn => hp (hqn ▸ hq), h.primary q hq⟩
    · rw [hentry o ho] at hl
      exact ⟨Finset.mem_of_mem_erase ho, hl, hprimary ▸ hne⟩
    · have hlive : s.pc.Live (s.crash n).owners (s.crash n).entry := by
        refine h.pc.mono (fun q k hq hk => ?_) fun o ho hl => ?_
        · have hqn : q ≠ n := fun hqn => hp (hqn ▸ hq)
          exact (hentry q (Finset.mem_erase.2 ⟨hqn, h.primary q hq⟩)).symm.trans hk
        · rw [hentry o ho] at hl
          exact ⟨Finset.mem_of_mem_erase ho, hl⟩
      rw [hpc]
      cases hcase : s.pc with
      | shipping q f delta left last =>
        rw [hcase] at hlive
        intro hlast
        refine ⟨(hlive hlast).1, fun o ho hl hoq => ?_⟩
        exact Finset.mem_erase.2 ⟨Finset.ne_of_mem_erase ho, (hlive hlast).2 o ho hl hoq⟩
      | idle | fetched | ready | inserted =>
        rw [hcase] at hlive
        exact hlive

omit [DecidableEq N] in
/-- An update of a node's container moves the live sessions there, and keeps their last facts. -/
theorem OneLive.migrate [DecidableEq N] (h : s.OneLive old) (n : N) (r : ReleaseId) :
    (s.migrate n r).OneLive old := by
  have hprimary : (s.migrate n r).pc.primary = s.pc.primary := by
    show (s.pc.map _).primary = _
    rcases s.pc with _ | _ | ⟨_, _, _ | _⟩ | ⟨_, _, _ | _⟩ | _ <;> rfl
  have hentry : ∀ o, ((s.migrate n r).entry o).isLive = (s.entry o).isLive := fun o => by
    show Entry.isLive (if o = n then _ else _) = _
    split
    · exact Entry.isLive_migrate r _
    · rfl
  refine h.of_live (fun q hq => h.primary q (hprimary ▸ hq)) (fun o ho hl hne => ?_) ?_
  · exact ⟨ho, hentry o ▸ hl, hprimary ▸ hne⟩
  · have hpc := h.pc
    show (s.pc.map _).Live _ _
    cases hcase : s.pc with
    | idle | fetched => trivial
    | ready q f session => cases session <;> trivial
    | inserted q f session =>
      rw [hcase] at hpc
      cases session with
      | stored =>
        intro k hk
        have hk' : (if q = n then (s.entry q).map (DeltaAware.migrate r) else s.entry q) =
          some (.live k) := hk
        split at hk'
        · obtain ⟨v, hv, hvk⟩ := Option.map_eq_some_iff.1 hk'
          cases v with
          | live k₀ =>
            cases hvk
            exact hpc k₀ hv
          | serialized => cases hvk
        · exact hpc k hk'
      | rebuilt k emptied =>
        show HAKieSession.lastFact (if q = n then _ else _) ≠ none
        split <;> exact hpc
    | shipping q f delta left last =>
      rw [hcase] at hpc
      intro hlast
      exact ⟨(hpc hlast).1, fun o ho hl => (hpc hlast).2 o ho (hentry o ▸ hl)⟩

variable [Fact F]

/-- A merge: the owner holds no live session where the delta brings a fact. -/
theorem OneLive.merge {o : N} (h : s.OneLive old) (hs : s.merge rules o = some s') :
    s'.OneLive old := by
  obtain ⟨p, f, delta, left, last, fr, hpc, ho, hmerge, rfl⟩ := merge_eq_some hs
  have hlive : ∀ o', ((s.setEntry o fr.this).entry o').isLive = true →
      (s.entry o').isLive = true ∧ (o' = o → delta = .empty) := by
    intro o' hl
    by_cases heq : o' = o
    · subst heq
      rw [entry_setEntry_self] at hl
      exact ⟨(Delta.isLive_merge hmerge hl).2, fun _ => (Delta.isLive_merge hmerge hl).1⟩
    · rw [entry_setEntry_of_ne s heq] at hl
      exact ⟨hl, fun h => absurd h heq⟩
  have hprimary : s.pc.primary = some p := by rw [hpc]; rfl
  have hs' := h.pc
  rw [hpc] at hs'
  refine h.of_live (fun q hq => h.primary q (hprimary.trans hq)) (fun o' ho' hl hne => ?_)
    fun hlast => ⟨(hs' hlast).1, fun o' ho' hl hop => ?_⟩
  · exact ⟨ho', (hlive o' hl).1, hprimary ▸ hne⟩
  · refine Finset.mem_erase.2 ⟨fun heq => (hs' hlast).1 ((hlive o' hl).2 heq), ?_⟩
    exact (hs' hlast).2 o' ho' (hlive o' hl).1 hop

omit [Fact F] in
/-- What a put that has returned leaves: after that of an inserted session the primary owner is the
one that holds a live session. -/
theorem OneLive.commit (h : s.OneLive old) (hs : s.commit = some s') :
    s'.OneLive old ∧ s'.pc ≠ .idle ∨
      ∃ p, s.pc.primary = some p ∧ s'.OneLive (some p) ∧ p ∈ s'.owners ∧
        (s'.entry p).isLive = true := by
  obtain ⟨p, f, delta, last, k, hpc, hk, rfl⟩ := commit_eq_some hs
  have hprimary : s.pc.primary = some p := by rw [hpc]; rfl
  cases last with
  | false =>
    refine .inl ⟨?_, fun hidle => by cases hidle⟩
    exact h.atPrimary hprimary _ (.ready p f .stored) rfl trivial
  | true =>
    have hpclive := h.pc
    rw [hpc] at hpclive
    refine .inr ⟨p, hprimary, ⟨fun q hq => (by cases hq), fun o ho hl _ => ?_, trivial⟩,
      h.primary p hprimary, ?_⟩
    · -- Every other owner has merged.
      by_contra hne
      have hop : o ≠ p := fun hop => hne (congrArg some hop.symm)
      have hl' : ((s.setEntry p (some (.live k.commit))).entry o).isLive = true := hl
      rw [entry_setEntry_of_ne s hop] at hl'
      cases (hpclive rfl).2 o ho hl' hop
    · show ((s.setEntry p (some (.live k.commit))).entry p).isLive = true
      rw [entry_setEntry_self]
      rfl

/-- A step keeps the invariant, for the owner of the last insert. -/
theorem OneLive.step {a : Action N F} (h : s.OneLive old) (hs : s.step rules a = some s') :
    ∃ old', s'.OneLive old' := by
  cases a with
  | get p f =>
    obtain ⟨hpc, howner, rfl⟩ := get_eq_some hs
    refine ⟨old, h.of_live (fun q hq => ?_) (fun o ho hl _ => ⟨ho, hl, ?_⟩) trivial⟩
    · cases hq
      exact howner
    · rw [hpc]
      exact fun hq => by cases hq
  | resolve =>
    obtain ⟨p, f, hpc, ⟨-, rfl⟩ | ⟨k, hk, rfl⟩ | ⟨v, k, fr, hv, -, -, rfl⟩⟩ := resolve_eq_some hs
    all_goals have hprimary : s.pc.primary = some p := by rw [hpc]; rfl
    · exact ⟨old, h.ship hprimary fun hlast => by cases hlast⟩
    · refine ⟨old, h.of_live (fun q hq => h.primary q (hprimary.trans hq))
        (fun o ho hl hne => ⟨ho, hl, hprimary ▸ hne⟩) trivial⟩
    · exact ⟨old, h.atPrimary hprimary _ _ rfl trivial⟩
  | insert =>
    obtain ⟨p, f, k, fr, hinsert, hcase⟩ := insert_eq_some hs
    have hfact : fr.this.lastFact ≠ none := by
      rw [HAKieSession.insert_lastFact hinsert]
      exact fun h => by cases h
    rcases hcase with ⟨hpc, hk, rfl⟩ | ⟨emptied, hpc, rfl⟩
    all_goals have hprimary : s.pc.primary = some p := by rw [hpc]; rfl
    · refine ⟨old, h.atPrimary hprimary _ (.inserted p f .stored) rfl fun k' hk' => ?_⟩
      rw [entry_setEntry_self] at hk'
      cases hk'
      exact hfact
    · exact ⟨old, h.of_live (fun q hq => h.primary q (hprimary.trans hq))
        (fun o ho hl hne => ⟨ho, hl, hprimary ▸ hne⟩) hfact⟩
  | put =>
    obtain ⟨p, f, k, rfl, hcase⟩ := put_eq_some hs
    have hpclive := h.pc
    rcases hcase with ⟨hpc, hk⟩ | ⟨emptied, hpc⟩
    all_goals have hprimary : s.pc.primary = some p := by rw [hpc]; rfl
    all_goals rw [hpc] at hpclive
    · exact ⟨old, h.ship hprimary fun _ => hpclive k hk⟩
    · exact ⟨old, h.ship hprimary fun _ => hpclive⟩
  | merge o => exact ⟨old, h.merge hs⟩
  | commit =>
    rcases h.commit hs with ⟨h', -⟩ | ⟨p, -, h', -⟩
    · exact ⟨old, h'⟩
    · exact ⟨some p, h'⟩
  | snapshot o =>
    obtain ⟨v, fr, -, -, rfl⟩ := snapshot_eq_some hs
    exact ⟨old, h.setEntry rfl⟩

end Slot

namespace Grid

variable [Fact F] {codec : FactCodec F} {rules : N → RulesManager} {owners : K → Finset N}
  {actions : List (CrashAction K N F)} {g g' : Grid K N E} {k : K}

/-- A step of the grid keeps the invariant of a key. -/
theorem oneLive_step {a : CrashAction K N F} (h : ∃ old, (g.slot k).OneLive old)
    (hs : (crashLts E codec).step g a = some g') : ∃ old, (g'.slot k).OneLive old := by
  obtain ⟨old, h⟩ := h
  match a with
  | .transfer (.grid a) =>
    obtain ⟨k', action, s, rfl, hstep, rfl⟩ | ⟨node, version, rm, rfl, -, rfl⟩ := step_eq_some hs
    · by_cases hk : k = k'
      · subst hk
        simpa using h.step hstep
      · exact ⟨old, by simpa [hk] using h⟩
    · exact ⟨old, h.migrate node _⟩
  | .transfer (.join k' p n) =>
    obtain ⟨s, hjoin, rfl⟩ := Option.map_eq_some_iff.1 hs
    by_cases hk : k = k'
    · subst hk
      exact ⟨old, by simpa using h.join hjoin⟩
    · exact ⟨old, by simpa [hk] using h⟩
  | .crash n =>
    cases hs
    exact ⟨old, h.crash n⟩

/-- In every run, with joins, crashes, snapshots and updates at any moment: of the owners of a key
other than the primary one of the insert under way at most one holds a live session, so between two
inserts at most one owner does; and when an insert returns it is the primary owner of that insert.
-/
theorem one_live (h : (crashLts E codec).exec (start rules owners) actions = some g) (k : K) :
    (∀ o ∈ (g.slot k).owners, ∀ o' ∈ (g.slot k).owners,
      ((g.slot k).entry o).isLive = true → ((g.slot k).entry o').isLive = true →
      (g.slot k).pc.primary ≠ some o → (g.slot k).pc.primary ≠ some o' → o = o') ∧
    ∀ g', (crashLts E codec).step g (.transfer (.grid (.key k .commit))) = some g' →
      (g'.slot k).pc = .idle → ∃ p, (g.slot k).pc.primary = some p ∧ p ∈ (g'.slot k).owners ∧
        ∀ o ∈ (g'.slot k).owners, ((g'.slot k).entry o).isLive = true ↔ o = p := by
  have hstart : ∃ old, ((start rules owners : Grid K N E).slot k).OneLive old :=
    ⟨none, fun _ hp => (by cases hp), fun _ _ hl => (by cases hl), trivial⟩
  obtain ⟨old, hone⟩ := (crashLts E codec).exec_invariant
    (fun g : Grid K N E => ∃ old, (g.slot k).OneLive old) (fun _ _ _ => oneLive_step) hstart h
  refine ⟨fun o ho o' ho' hl hl' hne hne' => ?_, fun g' hs hidle => ?_⟩
  · have hold := hone.live o ho hl hne
    have hold' := hone.live o' ho' hl' hne'
    exact Option.some.inj (hold.symm.trans hold')
  · obtain ⟨s, hcommit, rfl⟩ := Option.map_eq_some_iff.1 hs
    have hslot : ({ g with slot := Function.update g.slot k s } : Grid K N E).slot k = s :=
      Function.update_self ..
    rw [hslot] at hidle ⊢
    rcases hone.commit hcommit with ⟨-, hbusy⟩ | ⟨p, hp, hs', howner, hlive⟩
    · exact absurd hidle hbusy
    · refine ⟨p, hp, howner, fun o ho => ⟨fun hl => ?_, fun hop => hop ▸ hlive⟩⟩
      have hop := hs'.live o ho hl (by rw [hidle]; exact fun hq => by cases hq)
      exact (Option.some.inj hop).symm

/-- The last put of the run returns at the owner that has crashed before and joined again. -/
theorem one_live_crashBeside :
    ∃ g g' : Grid Unit Bool Recorder.engine,
      (crashLts _ readingCodec).exec (start (fun _ => Recorder.manager (jstr "1"))
        fun _ => {false, true}) crashBeside.dropLast = some g ∧
      (crashLts _ readingCodec).step g (.transfer (.grid (.key () .commit))) = some g' ∧
      ∀ o ∈ (g'.slot ()).owners, ((g'.slot ()).entry o).isLive = true ↔ o = true := by
  have hrun : ((crashLts Recorder.engine readingCodec).exec
      (start (fun _ : Bool => Recorder.manager (jstr "1")) fun _ => {false, true})
      crashBeside.dropLast).any (fun g => decide ((g.slot ()).pc.primary = some true) &&
        ((crashLts _ readingCodec).step g (.transfer (.grid (.key () .commit)))).any
          fun g' => (g'.slot ()).pc.isIdle) := by
    decide +kernel
  obtain ⟨g, hg, h⟩ := (Option.any_eq_true _ _).1 hrun
  rw [Bool.and_eq_true, decide_eq_true_iff] at h
  obtain ⟨hprimary, hcommit⟩ := h
  obtain ⟨g', hg', hidle⟩ := (Option.any_eq_true _ _).1 hcommit
  obtain ⟨p, hp, -, hlive⟩ := (one_live hg ()).2 g' hg' (Pc.isIdle_iff.1 hidle)
  cases Option.some.inj (hp.symm.trans hprimary)
  exact ⟨g, g', hg, hg', hlive⟩

end Grid

end Hacep
