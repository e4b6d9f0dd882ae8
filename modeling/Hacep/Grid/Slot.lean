import Hacep.Lib.Lts
import Hacep.Session.Delta
import Hacep.Session.Replica

/-!
# One key of the session cache

A `Slot` is what the owners of one session key hold, together with the `KieSessionSaver.insert` that
is under way for the key. There is one such insert at a time: on one node the lock of the key sees to
that, and that no two nodes insert for a key together is assumed, since the lock is a node's own. The
actions are the statements of `insert`: `get`, the branches that produce the session (`resolve`), the
insertion (`insert`), and the put, which stores the value at the primary owner and takes its delta
(`put`), merges the delta at every other owner (`merge`), and commits and returns (`commit`). A
statement that throws is no step.

Between any two of them a snapshot may run at any owner. It is one step, from its first statement to
its last: what is seen of a session while its buffer is drained into a snapshot is the subject of
`Session/Threads.lean`, not of the grid.

The value is held by reference: where the primary owner holds a live session, `insert` changes what
it holds.

The invariant `Inv` says, for every point of an insert, what each owner's history is. Each action
has a lemma that it keeps the invariant.
-/

namespace Hacep

open Java

variable {F : Type}

/-- The session that an insert works on: the one in the cache, or one that `rebuild` has made.
`emptied` records that the rebuild took facts out of the session in the cache. -/
inductive Held (E : KieEngine F)
  | stored
  | rebuilt (h : HAKieSession E) (emptied : Bool)

/-- Where the insert of a key is. -/
inductive Pc (N : Type) (E : KieEngine F)
  | idle
  /-- The value has been got. -/
  | fetched (primary : N) (fact : F)
  /-- The session to insert into is there. -/
  | ready (primary : N) (fact : F) (session : Held E)
  /-- The fact is inserted. -/
  | inserted (primary : N) (fact : F) (session : Held E)
  /-- A put ships its delta to the owners left; `last` tells the put of the inserted session from
  that of a new one. -/
  | shipping (primary : N) (fact : F) (delta : Delta F) (left : Finset N) (last : Bool)

/-- No insert is under way. -/
def Pc.isIdle {N : Type} {E : KieEngine F} : Pc N E → Bool
  | .idle => true
  | _ => false

theorem Pc.isIdle_iff {N : Type} {E : KieEngine F} {pc : Pc N E} :
    pc.isIdle = true ↔ pc = .idle := by
  cases pc <;> simp [isIdle]

/-- A change of the session that `rebuild` has made. -/
def Pc.map {N : Type} {E : KieEngine F} (φ : N → HAKieSession E → HAKieSession E) :
    Pc N E → Pc N E
  | .ready primary fact (.rebuilt h emptied) =>
    .ready primary fact (.rebuilt (φ primary h) emptied)
  | .inserted primary fact (.rebuilt h emptied) =>
    .inserted primary fact (.rebuilt (φ primary h) emptied)
  | pc => pc

/-- The entries of one session key, and its insert. `completed` records the facts of the inserts
that have returned. -/
structure Slot (N : Type) (E : KieEngine F) where
  owners : Finset N
  entry : N → Entry E := fun _ => none
  pc : Pc N E := .idle
  completed : List F := []

namespace Slot

/-- A step of the insert of a key, or a snapshot at an owner. -/
inductive Action (N F : Type)
  | get (primary : N) (fact : F)
  | resolve
  | insert
  | put
  | merge (owner : N)
  | commit
  | snapshot (owner : N)
  deriving DecidableEq, Repr

variable {N : Type} [DecidableEq N] {E : KieEngine F}

/-- A write to what an owner holds. -/
def setEntry (s : Slot N E) (owner : N) (e : Entry E) : Slot N E :=
  { s with entry := Function.update s.entry owner e }

/-- `sessionCache.get`. -/
def get (s : Slot N E) (primary : N) (fact : F) : Option (Slot N E) :=
  match s.pc with
  | .idle => if primary ∈ s.owners then some { s with pc := .fetched primary fact } else none
  | _ => none

/-- The delta of a value is taken when it is put. -/
def ship (s : Slot N E) (primary : N) (fact : F) (h : HAKieSession E) (last : Bool) : Slot N E :=
  { s.setEntry primary (some (.live h)) with
    pc := .shipping primary fact h.delta (s.owners.erase primary) last }

/-- The put of the inserted session. -/
def put (s : Slot N E) : Option (Slot N E) :=
  match s.pc with
  | .inserted primary fact .stored =>
    match s.entry primary with
    | some (.live h) => some (s.ship primary fact h true)
    | _ => none
  | .inserted primary fact (.rebuilt h _) => some (s.ship primary fact h true)
  | _ => none

/-- Every owner has merged: `commit`, and the put returns. -/
def commit (s : Slot N E) : Option (Slot N E) :=
  match s.pc with
  | .shipping primary fact _ left last =>
    if left = ∅ then
      match s.entry primary with
      | some (.live h) =>
        let s := s.setEntry primary (some (.live h.commit))
        some (if last then { s with pc := .idle, completed := s.completed ++ [fact] }
          else { s with pc := .ready primary fact .stored })
      | _ => none
    else none
  | _ => none

section Calls

variable [Fact F] (rules : N → RulesManager)

/-- The branches on the value: a new session is put, a live one is used, a serialized one is
rebuilt. The rebuild of a session with a pending snapshot waits for the snapshot. -/
def resolve (s : Slot N E) : Option (Slot N E) :=
  match s.pc with
  | .fetched primary fact =>
    match s.entry primary with
    | none => some (s.ship primary fact {} false)
    | some (.live _) => some { s with pc := .ready primary fact .stored }
    | some (.serialized v) =>
      if v.saving then none
      else
        match HAKieSerializedSession.rebuild (rules primary) ⟨v, []⟩ with
        | .ok h fr =>
          some { s.setEntry primary (some (.serialized fr.this)) with
            pc := .ready primary fact (.rebuilt h (v.emptiedByRebuild (rules primary))) }
        | .error _ _ => none
  | _ => none

/-- `haKieSession.insert(fact)`. -/
def insert (s : Slot N E) : Option (Slot N E) :=
  match s.pc with
  | .ready primary fact .stored =>
    match s.entry primary with
    | some (.live h) =>
      match HAKieSession.insert (rules primary) fact ⟨h, []⟩ with
      | .ok _ fr =>
        some { s.setEntry primary (some (.live fr.this)) with
          pc := .inserted primary fact .stored }
      | .error _ _ => none
    | _ => none
  | .ready primary fact (.rebuilt h emptied) =>
    match HAKieSession.insert (rules primary) fact ⟨h, []⟩ with
    | .ok _ fr => some { s with pc := .inserted primary fact (.rebuilt fr.this emptied) }
    | .error _ _ => none
  | _ => none

/-- The put under way merges its delta at one of the owners left. -/
def merge (s : Slot N E) (owner : N) : Option (Slot N E) :=
  match s.pc with
  | .shipping primary fact delta left last =>
    if owner ∈ left then
      match delta.merge (rules owner) ⟨s.entry owner, []⟩ with
      | .ok _ fr =>
        some { s.setEntry owner fr.this with
          pc := .shipping primary fact delta (left.erase owner) last }
      | .error _ _ => none
    else none
  | _ => none

/-- The pending snapshot of an owner runs to its end. -/
def snapshot (s : Slot N E) (owner : N) : Option (Slot N E) :=
  match s.entry owner with
  | some (.serialized v) =>
    if v.saving then
      match HAKieSerializedSession.snapshotBody (E := E) (rules owner) ⟨v, []⟩ with
      | .ok _ fr => some (s.setEntry owner (some (.serialized
          { fr.this with saving := false, latch := fr.this.latch - 1 })))
      | .error _ _ => none
    else none
  | _ => none

/-- One action. -/
def step (s : Slot N E) : Action N F → Option (Slot N E)
  | .get primary fact => s.get primary fact
  | .resolve => s.resolve rules
  | .insert => s.insert rules
  | .put => s.put
  | .merge owner => s.merge rules owner
  | .commit => s.commit
  | .snapshot owner => s.snapshot rules owner

end Calls

/-- What an update of an owner's container to another release makes of the sessions there. -/
def migrate (s : Slot N E) (owner : N) (r : ReleaseId) : Slot N E :=
  { s with
    entry := fun o => if o = owner then (s.entry o).map (DeltaAware.migrate r) else s.entry o
    pc := s.pc.map fun primary h => if primary = owner then h.migrate r else h }

/-! ## The invariant -/

/-- The logical fact history at an owner. -/
def historyAt (H : FactHistory E) (s : Slot N E) (o : N) : List F := Entry.history H (s.entry o)

/-- What the history at an owner is, at every point of an insert. -/
def OwnerInv (H : FactHistory E) (s : Slot N E) (o : N) : Prop :=
  match s.pc with
  | .idle | .fetched _ _ | .ready _ _ .stored => s.historyAt H o = s.completed
  | .ready p _ (.rebuilt _ emptied) | .inserted p _ (.rebuilt _ emptied) =>
    (o = p → emptied = false) → s.historyAt H o = s.completed
  | .inserted p f .stored => s.historyAt H o = if o = p then s.completed ++ [f] else s.completed
  | .shipping _ _ delta left _ =>
    s.historyAt H o = if o ∈ left then s.completed else s.completed ++ delta.facts

/-- What the session of the insert is, at every point of it. -/
def SessionInv (H : FactHistory E) (s : Slot N E) : Prop :=
  match s.pc with
  | .idle => True
  | .fetched p _ => p ∈ s.owners
  | .ready p _ .stored => p ∈ s.owners ∧ ∃ h, s.entry p = some (.live h)
  | .ready p _ (.rebuilt h _) => p ∈ s.owners ∧ h.history H = s.completed
  | .inserted p f .stored => p ∈ s.owners ∧ ∃ h, s.entry p = some (.live h) ∧ h.lastFact = some f
  | .inserted p f (.rebuilt h _) =>
    p ∈ s.owners ∧ h.history H = s.completed ++ [f] ∧ h.lastFact = some f
  | .shipping p f delta left last =>
    p ∈ s.owners ∧ left ⊆ s.owners.erase p ∧ (∃ h, s.entry p = some (.live h)) ∧
      delta.facts = if last then [f] else []

/-- The invariant of a key. -/
structure Inv (H : FactHistory E) (s : Slot N E) : Prop where
  /-- The insert has the session that it should have. -/
  session : s.SessionInv H
  /-- Every owner has the history that it should have. -/
  owners : ∀ o ∈ s.owners, s.OwnerInv H o

variable {H : FactHistory E} {s s' : Slot N E} {rules : N → RulesManager}

@[simp]
theorem historyAt_setEntry (s : Slot N E) (o o' : N) (e : Entry E) :
    (s.setEntry o e).historyAt H o' = if o' = o then Entry.history H e else s.historyAt H o' := by
  by_cases h : o' = o
  · subst h
    simp [historyAt, setEntry]
  · simp [historyAt, setEntry, h]

@[simp]
theorem entry_setEntry_self (s : Slot N E) (o : N) (e : Entry E) : (s.setEntry o e).entry o = e := by
  simp [setEntry]

omit [DecidableEq N] in
theorem historyAt_of_live {o : N} {h : HAKieSession E} (he : s.entry o = some (.live h)) :
    s.historyAt H o = h.history H := by
  rw [historyAt, he]
  rfl

/-! ## What each action does -/

theorem get_eq_some {p : N} {f : F} (h : s.get p f = some s') :
    s.pc = .idle ∧ p ∈ s.owners ∧ s' = { s with pc := .fetched p f } := by
  unfold get at h
  split at h
  · split at h <;> cases h
    exact ⟨‹_›, ‹_›, rfl⟩
  · cases h

theorem put_eq_some (h : s.put = some s') :
    ∃ p f k, s' = s.ship p f k true ∧
      ((s.pc = .inserted p f .stored ∧ s.entry p = some (.live k)) ∨
        ∃ emptied, s.pc = .inserted p f (.rebuilt k emptied)) := by
  unfold put at h
  split at h
  · split at h <;> cases h
    exact ⟨_, _, _, rfl, .inl ⟨‹_›, ‹_›⟩⟩
  · cases h
    exact ⟨_, _, _, rfl, .inr ⟨_, ‹_›⟩⟩
  · cases h

theorem commit_eq_some (h : s.commit = some s') :
    ∃ p f delta last k, s.pc = .shipping p f delta ∅ last ∧ s.entry p = some (.live k) ∧
      s' = if last then
          { s.setEntry p (some (.live k.commit)) with
            pc := .idle, completed := s.completed ++ [f] }
        else { s.setEntry p (some (.live k.commit)) with pc := .ready p f .stored } := by
  unfold commit at h
  split at h
  · split at h
    · split at h
      · cases h
        rename_i hpc hleft _ k hk
        subst hleft
        exact ⟨_, _, _, _, _, hpc, hk, rfl⟩
      · cases h
    · cases h
  · cases h

section Calls

variable [Fact F]

theorem resolve_eq_some (h : s.resolve rules = some s') :
    ∃ p f, s.pc = .fetched p f ∧
      ((s.entry p = none ∧ s' = s.ship p f {} false) ∨
        (∃ k, s.entry p = some (.live k) ∧ s' = { s with pc := .ready p f .stored }) ∨
        ∃ v k fr, s.entry p = some (.serialized v) ∧ v.saving = false ∧
          HAKieSerializedSession.rebuild (rules p) ⟨v, []⟩ = .ok k fr ∧
          s' = { s.setEntry p (some (.serialized fr.this)) with
            pc := .ready p f (.rebuilt k (v.emptiedByRebuild (rules p))) }) := by
  unfold resolve at h
  split at h
  · split at h
    · cases h
      exact ⟨_, _, ‹_›, .inl ⟨‹_›, rfl⟩⟩
    · cases h
      exact ⟨_, _, ‹_›, .inr (.inl ⟨_, ‹_›, rfl⟩)⟩
    · split at h
      · cases h
      · split at h
        · cases h
          exact ⟨_, _, ‹_›, .inr (.inr ⟨_, _, _, ‹_›, Bool.eq_false_iff.2 ‹_›, ‹_›, rfl⟩)⟩
        · cases h
  · cases h

theorem insert_eq_some (h : s.insert rules = some s') :
    ∃ p f k fr, HAKieSession.insert (rules p) f ⟨k, []⟩ = .ok () fr ∧
      ((s.pc = .ready p f .stored ∧ s.entry p = some (.live k) ∧
          s' = { s.setEntry p (some (.live fr.this)) with pc := .inserted p f .stored }) ∨
        ∃ emptied, s.pc = .ready p f (.rebuilt k emptied) ∧
          s' = { s with pc := .inserted p f (.rebuilt fr.this emptied) }) := by
  unfold insert at h
  split at h
  · split at h
    · split at h
      · cases h
        exact ⟨_, _, _, _, ‹_›, .inl ⟨‹_›, ‹_›, rfl⟩⟩
      · cases h
    · cases h
  · split at h
    · cases h
      exact ⟨_, _, _, _, ‹_›, .inr ⟨_, ‹_›, rfl⟩⟩
    · cases h
  · cases h

theorem merge_eq_some {o : N} (h : s.merge rules o = some s') :
    ∃ p f delta left last fr, s.pc = .shipping p f delta left last ∧ o ∈ left ∧
      delta.merge (rules o) ⟨s.entry o, []⟩ = .ok () fr ∧
      s' = { s.setEntry o fr.this with pc := .shipping p f delta (left.erase o) last } := by
  unfold merge at h
  split at h
  · split at h
    · split at h
      · cases h
        exact ⟨_, _, _, _, _, _, ‹_›, ‹_›, ‹_›, rfl⟩
      · cases h
    · cases h
  · cases h

theorem snapshot_eq_some {o : N} (h : s.snapshot rules o = some s') :
    ∃ v fr, s.entry o = some (.serialized v) ∧
      HAKieSerializedSession.snapshotBody (E := E) (rules o) ⟨v, []⟩ = .ok () fr ∧
      s' = s.setEntry o (some (.serialized
        { fr.this with saving := false, latch := fr.this.latch - 1 })) := by
  unfold snapshot at h
  split at h
  · split at h
    · split at h
      · cases h
        exact ⟨_, _, ‹_›, ‹_›, rfl⟩
      · cases h
    · cases h
  · cases h

end Calls

/-! ## The facts of the inserts -/

/-- The fact of the insert under way. -/
def pending (s : Slot N E) : List F :=
  match s.pc with
  | .idle => []
  | .fetched _ f | .ready _ f _ | .inserted _ f _ | .shipping _ f _ _ _ => [f]

/-- The fact that an action brings. -/
def Action.fact : Action N F → List F
  | .get _ f => [f]
  | _ => []

/-- Every fact that is brought is the fact of the insert under way until that has returned, and no
action changes the owners. -/
theorem step_pending [Fact F] {a : Action N F} (h : s.step rules a = some s') :
    s'.completed ++ s'.pending = s.completed ++ s.pending ++ a.fact ∧ s'.owners = s.owners := by
  cases a with
  | get p f =>
    obtain ⟨hpc, -, rfl⟩ := get_eq_some h
    simp [pending, hpc, Action.fact]
  | resolve =>
    obtain ⟨p, f, hpc, ⟨-, rfl⟩ | ⟨k, -, rfl⟩ | ⟨v, k, fr, -, -, -, rfl⟩⟩ := resolve_eq_some h <;>
      simp [pending, hpc, Action.fact, ship, setEntry]
  | insert =>
    obtain ⟨p, f, k, fr, -, ⟨hpc, -, rfl⟩ | ⟨emptied, hpc, rfl⟩⟩ := insert_eq_some h <;>
      simp [pending, hpc, Action.fact, setEntry]
  | put =>
    obtain ⟨p, f, k, rfl, ⟨hpc, -⟩ | ⟨emptied, hpc⟩⟩ := put_eq_some h <;>
      simp [pending, hpc, Action.fact, ship, setEntry]
  | merge o =>
    obtain ⟨p, f, delta, left, last, fr, hpc, -, -, rfl⟩ := merge_eq_some h
    simp [pending, hpc, Action.fact, setEntry]
  | commit =>
    obtain ⟨p, f, delta, last, k, hpc, -, rfl⟩ := commit_eq_some h
    cases last <;> simp [pending, hpc, Action.fact, setEntry]
  | snapshot o =>
    obtain ⟨v, fr, -, -, rfl⟩ := snapshot_eq_some h
    simp [pending, Action.fact, setEntry]

/-- An update of an owner's container brings no fact. -/
theorem pending_migrate (s : Slot N E) (o : N) (r : ReleaseId) :
    (s.migrate o r).pending = s.pending := by
  obtain ⟨owners, entry, pc, completed⟩ := s
  match pc with
  | .idle | .fetched _ _ | .ready _ _ .stored | .ready _ _ (.rebuilt _ _) | .inserted _ _ .stored
  | .inserted _ _ (.rebuilt _ _) | .shipping _ _ _ _ _ => rfl

/-! ## Every action keeps the invariant -/

/-- Changing entries and the session of the insert keeps the invariant, where the histories stay and
live sessions stay live. -/
theorem Inv.map (hi : s.Inv H) (φ : N → HAKieSession E → HAKieSession E)
    (entry : N → Entry E)
    (hφ : ∀ p k, (φ p k).history H = k.history H ∧ (φ p k).lastFact = k.lastFact)
    (hentry : ∀ o, Entry.history H (entry o) = s.historyAt H o)
    (hlive : ∀ o k, s.entry o = some (.live k) →
      ∃ k', entry o = some (.live k') ∧ k'.lastFact = k.lastFact) :
    ({ s with entry := entry, pc := s.pc.map φ } : Slot N E).Inv H := by
  obtain ⟨owners, entry₀, pc, completed⟩ := s
  obtain ⟨hsession, howners⟩ := hi
  have howner : ∀ o, (⟨owners, entry, pc.map φ, completed⟩ : Slot N E).historyAt H o =
      (⟨owners, entry₀, pc, completed⟩ : Slot N E).historyAt H o := hentry
  constructor
  · match pc with
    | .idle => trivial
    | .fetched p f => exact hsession
    | .ready p f .stored =>
      obtain ⟨hp, k, hk⟩ := hsession
      obtain ⟨k', hk', -⟩ := hlive p k hk
      exact ⟨hp, k', hk'⟩
    | .ready p f (.rebuilt k emptied) => exact ⟨hsession.1, (hφ p k).1.trans hsession.2⟩
    | .inserted p f .stored =>
      obtain ⟨hp, k, hk, hlast⟩ := hsession
      obtain ⟨k', hk', hlast'⟩ := hlive p k hk
      exact ⟨hp, k', hk', hlast'.trans hlast⟩
    | .inserted p f (.rebuilt k emptied) =>
      exact ⟨hsession.1, (hφ p k).1.trans hsession.2.1, (hφ p k).2.trans hsession.2.2⟩
    | .shipping p f delta left last =>
      obtain ⟨hp, hleft, ⟨k, hk⟩, hfacts⟩ := hsession
      obtain ⟨k', hk', -⟩ := hlive p k hk
      exact ⟨hp, hleft, ⟨k', hk'⟩, hfacts⟩
  · intro o ho
    have hold := howners o ho
    match pc with
    | .idle | .fetched _ _ | .ready _ _ .stored | .shipping _ _ _ _ _ | .inserted _ _ .stored =>
      exact (howner o).trans hold
    | .ready _ _ (.rebuilt _ _) | .inserted _ _ (.rebuilt _ _) =>
      exact fun he => (howner o).trans (hold he)

/-- Changing a serialized entry to one with the same history keeps the invariant. -/
theorem Inv.setEntry_serialized {o : N} {v v' : HAKieSerializedSession F} (hi : s.Inv H)
    (hentry : s.entry o = some (.serialized v)) (hv : v'.history H = v.history H) :
    (s.setEntry o (some (.serialized v'))).Inv H := by
  have hpc : s.pc.map (fun _ k => k) = s.pc := by
    rcases s.pc with _ | _ | ⟨_, _, _ | _⟩ | ⟨_, _, _ | _⟩ | _ <;> rfl
  have hmap := hi.map (fun _ k => k) (Function.update s.entry o (some (.serialized v')))
    (fun _ _ => ⟨rfl, rfl⟩) ?_ ?_
  · rwa [hpc] at hmap
  · intro o'
    by_cases h : o' = o
    · subst h
      rw [Function.update_self, historyAt, hentry]
      exact hv
    · rw [Function.update_of_ne h]
      rfl
  · intro o' k hk
    have hne : o' ≠ o := by
      rintro rfl
      cases hentry.symm.trans hk
    exact ⟨k, by rwa [Function.update_of_ne hne], rfl⟩

/-- An update of an owner's container keeps the invariant. -/
theorem migrate_inv (hi : s.Inv H) (o : N) (r : ReleaseId) : (s.migrate o r).Inv H := by
  refine hi.map _ _ (fun p k => ?_) (fun o' => ?_) fun o' k hk => ?_
  · split
    · exact ⟨HAKieSession.history_migrate r k, rfl⟩
    · exact ⟨rfl, rfl⟩
  · rw [historyAt]
    split
    · cases s.entry o' with
      | none => rfl
      | some v => exact DeltaAware.history_migrate r v
    · rfl
  · rw [hk]
    split
    · exact ⟨k.migrate r, rfl, rfl⟩
    · exact ⟨k, rfl, rfl⟩

/-- `get` changes nothing that is stored. -/
theorem get_inv {p : N} {f : F} (hi : s.Inv H) (h : s.get p f = some s') : s'.Inv H := by
  obtain ⟨hpc, hp, rfl⟩ := get_eq_some h
  refine ⟨hp, fun o ho => ?_⟩
  have := hi.owners o ho
  simp only [OwnerInv, hpc] at this
  exact this

/-- Taking the delta of a live session that is put for the first time, or after its insertion. -/
theorem ship_inv {p : N} {f : F} {k : HAKieSession E} {last : Bool} (hp : p ∈ s.owners)
    (hdelta : k.delta.facts = if last then [f] else [])
    (hk : k.history H = s.completed ++ k.delta.facts)
    (ho : ∀ o ∈ s.owners, o ≠ p → s.historyAt H o = s.completed) :
    (s.ship p f k last).Inv H := by
  refine ⟨⟨hp, Finset.Subset.refl _, ⟨k, ?_⟩, hdelta⟩, fun o (howner : o ∈ s.owners) => ?_⟩
  · exact entry_setEntry_self s p _
  · show (s.setEntry p (some (.live k))).historyAt H o =
      if o ∈ s.owners.erase p then s.completed else s.completed ++ k.delta.facts
    by_cases hop : o = p
    · rw [historyAt_setEntry, if_pos hop, if_neg (by simp [hop])]
      exact hk
    · rw [historyAt_setEntry, if_neg hop, if_pos (Finset.mem_erase.2 ⟨hop, howner⟩)]
      exact ho o howner hop

/-- The put takes the delta of the session that the fact was inserted in. -/
theorem put_inv (hi : s.Inv H) (h : s.put = some s') : s'.Inv H := by
  obtain ⟨p, f, k, rfl, ⟨hpc, hentry⟩ | ⟨emptied, hpc⟩⟩ := put_eq_some h
  · have hsession := hi.session
    simp only [SessionInv, hpc] at hsession
    obtain ⟨hp, k', hk', hlast⟩ := hsession
    cases hentry.symm.trans hk'
    have hfacts : k.delta.facts = [f] := by simp [HAKieSession.delta, hlast, Delta.facts]
    have howners : ∀ o ∈ s.owners,
        s.historyAt H o = if o = p then s.completed ++ [f] else s.completed := by
      simpa only [OwnerInv, hpc] using hi.owners
    refine ship_inv hp hfacts ?_ fun o ho hop => by rw [howners o ho, if_neg hop]
    rw [hfacts, ← historyAt_of_live hentry, howners p hp, if_pos rfl]
  · have hsession := hi.session
    simp only [SessionInv, hpc] at hsession
    obtain ⟨hp, hhist, hlast⟩ := hsession
    have hfacts : k.delta.facts = [f] := by simp [HAKieSession.delta, hlast, Delta.facts]
    refine ship_inv hp hfacts (by rw [hfacts, hhist]) fun o ho hop => ?_
    have := hi.owners o ho
    simp only [OwnerInv, hpc] at this
    exact this (absurd · hop)

/-- When every owner has merged, all have the history that the primary has. -/
theorem commit_inv (hi : s.Inv H) (h : s.commit = some s') : s'.Inv H := by
  obtain ⟨p, f, delta, last, k, hpc, hentry, rfl⟩ := commit_eq_some h
  have hsession := hi.session
  simp only [SessionInv, hpc] at hsession
  obtain ⟨hp, -, -, hfacts⟩ := hsession
  have howners : ∀ o ∈ s.owners, s.historyAt H o = s.completed ++ delta.facts := by
    simpa [OwnerInv, hpc] using hi.owners
  have hkept : ∀ o ∈ s.owners, (s.setEntry p (some (.live k.commit))).historyAt H o =
      s.completed ++ delta.facts := by
    intro o ho
    rw [historyAt_setEntry]
    split
    · show k.commit.history H = _
      rw [HAKieSession.history_commit, ← historyAt_of_live hentry, howners p hp]
    · exact howners o ho
  rw [hfacts] at hkept
  cases last with
  | true => exact ⟨trivial, hkept⟩
  | false =>
    simp only [Bool.false_eq_true, if_false, List.append_nil] at hkept
    exact ⟨⟨hp, k.commit, entry_setEntry_self s p _⟩, hkept⟩

section Calls

variable [Fact F]

/-- A new session, a live one and a rebuilt one all have the history that every owner has. -/
theorem resolve_inv (hi : s.Inv H) (h : s.resolve rules = some s') : s'.Inv H := by
  obtain ⟨p, f, hpc, hcases⟩ := resolve_eq_some h
  have hp : p ∈ s.owners := by simpa only [SessionInv, hpc] using hi.session
  have howners : ∀ o ∈ s.owners, s.historyAt H o = s.completed := by
    simpa only [OwnerInv, hpc] using hi.owners
  rcases hcases with ⟨hentry, rfl⟩ | ⟨k, hentry, rfl⟩ | ⟨v, k, fr, hentry, hsaving, hrebuild, rfl⟩
  · have hnil : s.completed = [] := by
      rw [← howners p hp, historyAt, hentry]
      rfl
    refine ship_inv hp rfl ?_ fun o ho _ => howners o ho
    rw [hnil]
    rfl
  · exact ⟨⟨hp, k, hentry⟩, howners⟩
  · have hv : v.history H = s.completed := by
      rw [← howners p hp, historyAt, hentry]
      rfl
    refine ⟨⟨hp, ?_⟩, fun o ho hemptied => ?_⟩
    · rw [HAKieSerializedSession.rebuild_ok hsaving hrebuild]
      exact hv
    · show (s.setEntry p _).historyAt H o = s.completed
      rw [historyAt_setEntry]
      split
      · rw [← hv]
        exact HAKieSerializedSession.rebuild_history hsaving (hemptied ‹_›) hrebuild
      · exact howners o ho

/-- The insertion adds the fact to the session of the insert, and to no other. -/
theorem insert_inv (hi : s.Inv H) (h : s.insert rules = some s') : s'.Inv H := by
  obtain ⟨p, f, k, fr, hinsert, ⟨hpc, hentry, rfl⟩ | ⟨emptied, hpc, rfl⟩⟩ := insert_eq_some h
  · obtain ⟨hhist, hlast⟩ := HAKieSession.insert_ok (H := H) hinsert
    have howners : ∀ o ∈ s.owners, s.historyAt H o = s.completed := by
      simpa only [OwnerInv, hpc] using hi.owners
    have hsession := hi.session
    simp only [SessionInv, hpc] at hsession
    refine ⟨⟨hsession.1, _, entry_setEntry_self s p _, hlast⟩, fun o ho => ?_⟩
    show (s.setEntry p _).historyAt H o = if o = p then s.completed ++ [f] else s.completed
    rw [historyAt_setEntry]
    split
    · show fr.this.history H = _
      rw [hhist, ← historyAt_of_live hentry, howners p hsession.1]
    · exact howners o ho
  · obtain ⟨hhist, hlast⟩ := HAKieSession.insert_ok (H := H) hinsert
    have hsession := hi.session
    simp only [SessionInv, hpc] at hsession
    refine ⟨⟨hsession.1, by rw [hhist]; exact congrArg (· ++ [f]) hsession.2, hlast⟩, fun o ho => ?_⟩
    have := hi.owners o ho
    simp only [OwnerInv, hpc] at this
    exact this

/-- A merge gives the owner the facts of the delta. -/
theorem merge_inv {o : N} (hi : s.Inv H) (h : s.merge rules o = some s') : s'.Inv H := by
  obtain ⟨p, f, delta, left, last, fr, hpc, ho, hmerge, rfl⟩ := merge_eq_some h
  have hsession := hi.session
  simp only [SessionInv, hpc] at hsession
  obtain ⟨hp, hleft, ⟨k, hk⟩, hfacts⟩ := hsession
  have howners : ∀ o ∈ s.owners, s.historyAt H o =
      if o ∈ left then s.completed else s.completed ++ delta.facts := by
    simpa only [OwnerInv, hpc] using hi.owners
  have hpo : p ≠ o := (Finset.ne_of_mem_erase (hleft ho)).symm
  refine ⟨⟨hp, (Finset.erase_subset o left).trans hleft, ⟨k, ?_⟩, hfacts⟩, fun o' ho' => ?_⟩
  · simpa [setEntry, hpo] using hk
  · show (s.setEntry o _).historyAt H o' =
      if o' ∈ left.erase o then s.completed else s.completed ++ delta.facts
    rw [historyAt_setEntry]
    by_cases hoo : o' = o
    · have hmerged := Delta.merge_ok (H := H) hmerge
      have hbefore := howners o' ho'
      rw [hoo, if_pos ho] at hbefore
      rw [if_pos hoo, if_neg (by simp [hoo]), hmerged]
      exact congrArg (· ++ delta.facts) hbefore
    · rw [if_neg hoo, howners o' ho']
      simp [Finset.mem_erase, hoo]

/-- A snapshot keeps the history of its owner. -/
theorem snapshot_inv {o : N} (hi : s.Inv H) (h : s.snapshot rules o = some s') : s'.Inv H := by
  obtain ⟨v, fr, hentry, hbody, rfl⟩ := snapshot_eq_some h
  exact hi.setEntry_serialized hentry (HAKieSerializedSession.snapshotBody_ok hbody).1

/-- Every action keeps the invariant. -/
theorem step_inv {a : Action N F} (hi : s.Inv H) (h : s.step rules a = some s') : s'.Inv H := by
  cases a with
  | get p f => exact get_inv hi h
  | resolve => exact resolve_inv hi h
  | insert => exact insert_inv hi h
  | put => exact put_inv hi h
  | merge o => exact merge_inv hi h
  | commit => exact commit_inv hi h
  | snapshot o => exact snapshot_inv hi h

end Calls

end Slot

end Hacep
