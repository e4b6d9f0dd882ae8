import Hacep.Grid.StateTransfer
import Hacep.Lib.PrimaryBackup
import Hacep.Lib.Simulation
import Hacep.Session.Failure

/-!
# The owners of a key keep a log

What an owner stores under a session key stands for a list of facts. Its history is one reading of
it, and the facts after which a session alone would be where it is are another. A `Meaning` is any
such reading that the calls of the code agree with: an insertion and a merge add a fact, and
everything else leaves the facts. Whatever the reading is, the owners of a key are a log with a
primary and backups: an insert is an append, its put publishes it, and a snapshot, a rebuild and the
put of a new session are no steps of the log (`Slot.Logs`, `Meaning.logs`).

Nodes crash here. A crash takes what the node stores, and an insert whose primary owner the node is.
-/

namespace Hacep

open Java PrimaryBackup

variable {K N F : Type} [DecidableEq K] [DecidableEq N]

/-! ## Crashes -/

/-- A put does not wait for a node that has crashed. -/
def Pc.lose {E : KieEngine F} (n : N) : Pc N E → Pc N E
  | .shipping p f delta left last => .shipping p f delta (left.erase n) last
  | pc => pc

/-- What is left of an insert when a node crashes. -/
def Pc.crash {E : KieEngine F} (pc : Pc N E) (n : N) : Pc N E :=
  if pc.primary = some n then .idle else pc.lose n

/-- What is left of the entries of a key, and of its insert, when a node crashes. -/
def Slot.crash {E : KieEngine F} (s : Slot N E) (n : N) : Slot N E :=
  { s with
    owners := s.owners.erase n, entry := Function.update s.entry n none, pc := s.pc.crash n }

namespace Grid

/-- A run with transfers and crashes. -/
inductive CrashAction (K N F : Type)
  | transfer (action : TransferAction K N F)
  | crash (node : N)
  deriving DecidableEq, Repr

/-- The fact that an action brings to a key. -/
def CrashAction.fact (k : K) : CrashAction K N F → List F
  | .transfer action => action.fact k
  | .crash _ => []

/-- The grid, with transfers and crashes. A node that has crashed may become an owner again, on
whatever version an update has brought it to. -/
def crashLts (E : KieEngine F) [Fact F] (codec : FactCodec F) :
    Lts (Grid K N E) (CrashAction K N F) where
  step g
    | .transfer action => (transferLts E codec).step g action
    | .crash n => some { g with slot := fun k => (g.slot k).crash n }

end Grid

/-! ## Meanings -/

/-- What entries and live sessions stand for, in a way that the calls of the code agree with. -/
structure Meaning (E : KieEngine F) [Fact F] (codec : FactCodec F) where
  /-- What the nodes are like. -/
  node : RulesManager → Prop
  /-- The facts that an entry stands for. -/
  entry : RulesManager → Entry E → List F → Prop
  /-- The facts that a live session stands for. -/
  session : RulesManager → HAKieSession E → List F → Prop
  /-- A delta may be merged into the entry. -/
  merges : Entry E → Prop
  /-- The nodes may move to other versions. -/
  updates : Prop
  /-- No entry stands for no facts. -/
  absent : ∀ rm facts, entry rm none facts ↔ facts = []
  /-- A new session stands for no facts. -/
  new : ∀ rm, node rm → session rm {} []
  /-- A live session stands in the cache for what it stands for outside. -/
  live : ∀ rm h facts, entry rm (some (.live h)) facts ↔ session rm h facts
  /-- `commit` leaves the facts. -/
  commit : ∀ rm h facts, session rm h facts → session rm h.commit facts
  /-- `rebuild` hands the facts out, and leaves them where it does not empty the session. -/
  rebuild : ∀ rm s h fr facts, node rm → entry rm (some (.serialized s)) facts → s.saving = false →
    HAKieSerializedSession.rebuild rm ⟨s, []⟩ = .ok h fr → session rm h facts ∧
      (s.emptiedByRebuild rm = false → entry rm (some (.serialized fr.this)) facts)
  /-- `insert` adds its fact. -/
  insert : ∀ rm h f fr facts, node rm → session rm h facts →
    HAKieSession.insert rm f ⟨h, []⟩ = .ok () fr → session rm fr.this (facts ++ [f])
  /-- `merge` adds the facts of the delta. -/
  merge : ∀ rm e delta fr facts, node rm → entry rm e facts → merges e →
    Delta.merge rm delta ⟨e, []⟩ = .ok () fr → entry rm fr.this (facts ++ delta.facts)
  /-- A snapshot leaves the facts. -/
  snapshot : ∀ rm s fr facts, node rm → entry rm (some (.serialized s)) facts →
    HAKieSerializedSession.snapshotBody (E := E) rm ⟨s, []⟩ = .ok () fr →
    entry rm (some (.serialized fr.this.saved)) facts
  /-- A transfer leaves the facts. -/
  transfer : ∀ rm rm' e e' facts, node rm → node rm' → entry rm e facts →
    e.transfer codec rm rm' = some e' → entry rm' e' facts
  /-- An update leaves the facts. -/
  update : ∀ rm rm' version, updates → node rm → rm.updateToVersion E version = .ok (true, rm') →
    node rm' ∧
      (∀ e facts, entry rm e facts →
        entry rm' (e.map (DeltaAware.migrate (rm'.newReleaseId version))) facts) ∧
      ∀ h facts, session rm h facts → session rm' (h.migrate (rm'.newReleaseId version)) facts

variable {E : KieEngine F} [Fact F] {codec : FactCodec F}

namespace Slot

/-- The actions of the log that an action at the key stands for: an insert is an append, apart from
the put of a new session. -/
def label (s : Slot N E) : Slot.Action N F → List (PrimaryBackup.Action N F)
  | .get p f => [.start p f]
  | .put => [.publish]
  | .merge o =>
    match s.pc with
    | .shipping _ _ _ _ true => [.merge o]
    | _ => []
  | .commit =>
    match s.pc with
    | .shipping _ _ _ _ true => [.commit]
    | _ => []
  | .resolve | .insert | .snapshot _ => []

/-- Where the append is when the insert is at a point, and what the insert has to show for it. -/
def PcLogs (R : Meaning E codec) (rules : N → RulesManager) (s : Slot N E) (m : Store N F) : Prop :=
  match s.pc with
  | .idle => m.phase = .idle
  | .fetched p f => m.phase = .begun p f
  | .ready p f .stored => m.phase = .begun p f ∧ ∃ h, s.entry p = some (.live h)
  | .ready p f (.rebuilt h _) => m.phase = .begun p f ∧ R.session (rules p) h (m.log p)
  | .inserted p f .stored => m.phase = .begun p f ∧
      ∃ h, s.entry p = some (.live h) ∧ h.lastFact = some f ∧
        R.session (rules p) h (m.log p ++ [f])
  | .inserted p f (.rebuilt h _) => m.phase = .begun p f ∧ h.lastFact = some f ∧
      R.session (rules p) h (m.log p ++ [f])
  | .shipping p f delta left last => (∃ h, s.entry p = some (.live h)) ∧ left ⊆ s.owners.erase p ∧
      if last then m.phase = .shipping p f left ∧ delta.facts = [f]
      else m.phase = .begun p f ∧ delta.facts = []

/-- The entries of a key are the copies of a log. -/
structure Logs (R : Meaning E codec) (rules : N → RulesManager) (s : Slot N E) (m : Store N F) :
    Prop where
  /-- The owners are the same. -/
  owners : m.owners = s.owners
  /-- The inserts that have returned are the acknowledged appends. -/
  completed : m.acknowledged = s.completed
  /-- The primary owner is an owner. -/
  primary : ∀ p, s.pc.primary = some p → p ∈ s.owners
  /-- The insert under way is the append under way. -/
  pc : s.PcLogs R rules m
  /-- The entries stand for the copies, but for that of the primary owner where it has something
  that the put has not shipped. -/
  entries : ∀ o ∈ s.owners, (s.pc.primary = some o → s.pc.overlaps = false) →
    R.entry (rules o) (s.entry o) (m.log o)

variable {R : Meaning E codec} {rules : N → RulesManager} {s s' : Slot N E} {m : Store N F}

/-- The two have the same primary. -/
theorem Logs.primary_eq (h : s.Logs R rules m) : m.phase.primary = s.pc.primary := by
  have hpc := h.pc
  unfold PcLogs at hpc
  split at hpc <;> rename_i heq
  · rw [hpc, heq]; rfl
  · rw [hpc, heq]; rfl
  · rw [hpc.1, heq]; rfl
  · rw [hpc.1, heq]; rfl
  · rw [hpc.1, heq]; rfl
  · rw [hpc.1, heq]; rfl
  · obtain ⟨-, -, hphase⟩ := hpc
    rw [heq]
    split at hphase <;> rw [hphase.1] <;> rfl

/-- The two have the same fact under way. -/
theorem Logs.pending_eq (h : s.Logs R rules m) : m.phase.pending = s.pending := by
  have hpc := h.pc
  unfold PcLogs at hpc
  split at hpc <;> rename_i heq <;> rw [Slot.pending, heq]
  · rw [hpc]; rfl
  · rw [hpc]; rfl
  · rw [hpc.1]; rfl
  · rw [hpc.1]; rfl
  · rw [hpc.1]; rfl
  · rw [hpc.1]; rfl
  · obtain ⟨-, -, hphase⟩ := hpc
    split at hphase <;> rw [hphase.1] <;> rfl

end Slot

/-- The fact of an insertion that returns is the last one. -/
theorem HAKieSession.insert_lastFact {rm : RulesManager} {f : F}
    {fr fr' : Frame (Delivery E.Message) (HAKieSession E)}
    (h : HAKieSession.insert rm f fr = .ok () fr') : fr'.this.lastFact = some f := by
  simp only [HAKieSession.insert, takeFact, bind_eq_ok, modifyThis_run] at h
  obtain ⟨_, fr₄, ⟨_, fr₁, -, _, fr₂, h₂, _, fr₃, hadvance, hinsert⟩, hfire⟩ := h
  cases h₂
  obtain ⟨-, s₁, -, -, h₃⟩ := onSession_eq_ok hadvance
  obtain ⟨-, s₂, -, -, h₄⟩ := onSession_eq_ok hinsert
  obtain ⟨-, s₃, -, -, h₅⟩ := onSession_eq_ok hfire
  rw [h₅, h₄, h₃]

namespace Slot

variable {R : Meaning E codec} {rules : N → RulesManager} {s s' : Slot N E} {m : Store N F}

omit [Fact F] in
theorem entry_setEntry_of_ne (s : Slot N E) {o p : N} (hop : o ≠ p) (e : Entry E) :
    (s.setEntry p e).entry o = s.entry o := by
  simp [setEntry, hop]

/-- A put stores the live session that stands for the primary owner's copy. -/
theorem Logs.ship {p : N} {f : F} {k : HAKieSession E} {last : Bool} (howners : m.owners = s.owners)
    (hcompleted : m.acknowledged = s.completed) (hp : p ∈ s.owners)
    (hsession : R.session (rules p) k (m.log p))
    (hphase : if last then m.phase = .shipping p f (s.owners.erase p) ∧ k.delta.facts = [f]
      else m.phase = .begun p f ∧ k.delta.facts = [])
    (hentries : ∀ o ∈ s.owners, o ≠ p → R.entry (rules o) (s.entry o) (m.log o)) :
    (s.ship p f k last).Logs R rules m := by
  refine ⟨howners, hcompleted, fun q hq => ?_, ⟨⟨k, entry_setEntry_self s p _⟩,
    Finset.Subset.refl _, hphase⟩, fun o ho _ => ?_⟩
  · cases hq
    exact hp
  · show R.entry (rules o) ((s.setEntry p (some (.live k))).entry o) (m.log o)
    by_cases hop : o = p
    · subst hop
      rw [entry_setEntry_self]
      exact (R.live _ _ _).2 hsession
    · rw [entry_setEntry_of_ne s hop]
      exact hentries o ho hop

/-- An append begins with the fetch of the value. -/
theorem Logs.get {p : N} {f : F} (hm : s.Logs R rules m) (h : s.get p f = some s') :
    ∃ m', (Store.lts N F).exec m [.start p f] = some m' ∧ s'.Logs R rules m' := by
  obtain ⟨hpc, hp, rfl⟩ := get_eq_some h
  have hphase : m.phase = .idle := by simpa only [PcLogs, hpc] using hm.pc
  refine ⟨{ m with phase := .begun p f, begun := m.begun ++ [f] }, ?_, hm.owners, hm.completed,
    fun q hq => ?_, rfl, fun o ho _ => hm.entries o ho fun hq => ?_⟩
  · rw [← hm.owners] at hp
    simp [Lts.exec, Store.lts, hphase, hp]
  · cases hq
    exact hp
  · rw [hpc] at hq
    cases hq

/-- The session to insert into stands for the primary owner's copy. -/
theorem Logs.resolve (hnode : ∀ n, R.node (rules n)) (hm : s.Logs R rules m)
    (h : s.resolve rules = some s') : s'.Logs R rules m := by
  obtain ⟨p, f, hpc, hcases⟩ := resolve_eq_some h
  have hphase : m.phase = .begun p f := by simpa only [PcLogs, hpc] using hm.pc
  have hp : p ∈ s.owners := hm.primary p (by rw [hpc]; rfl)
  have hentries : ∀ o ∈ s.owners, R.entry (rules o) (s.entry o) (m.log o) := fun o ho =>
    hm.entries o ho fun _ => by rw [hpc]; rfl
  rcases hcases with ⟨hnone, rfl⟩ | ⟨k, hlive, rfl⟩ | ⟨v, k, fr, hentry, hsaving, hrebuild, rfl⟩
  · have hnil : m.log p = [] := by
      have := hentries p hp
      rw [hnone] at this
      exact (R.absent _ _).1 this
    refine Logs.ship hm.owners hm.completed hp ?_ ⟨hphase, rfl⟩ fun o ho _ => hentries o ho
    rw [hnil]
    exact R.new _ (hnode p)
  · refine ⟨hm.owners, hm.completed, fun q hq => ?_, ⟨hphase, k, hlive⟩, fun o ho _ => hentries o ho⟩
    cases hq
    exact hp
  · have hold := hentries p hp
    rw [hentry] at hold
    obtain ⟨hsession, hkept⟩ := R.rebuild _ _ _ _ _ (hnode p) hold hsaving hrebuild
    refine ⟨hm.owners, hm.completed, fun q hq => ?_, ⟨hphase, hsession⟩, fun o ho hok => ?_⟩
    · cases hq
      exact hp
    · show R.entry (rules o) ((s.setEntry p (some (.serialized fr.this))).entry o) (m.log o)
      by_cases hop : o = p
      · subst hop
        rw [entry_setEntry_self]
        exact hkept (hok rfl)
      · rw [entry_setEntry_of_ne s hop]
        exact hentries o ho

/-- The insertion adds the fact to the session of the insert. -/
theorem Logs.insert (hnode : ∀ n, R.node (rules n)) (hm : s.Logs R rules m)
    (h : s.insert rules = some s') : s'.Logs R rules m := by
  obtain ⟨p, f, k, fr, hinsert, ⟨hpc, hentry, rfl⟩ | ⟨emptied, hpc, rfl⟩⟩ := insert_eq_some h
  · have hpclogs := hm.pc
    simp only [PcLogs, hpc] at hpclogs
    have hp : p ∈ s.owners := hm.primary p (by rw [hpc]; rfl)
    have hentries : ∀ o ∈ s.owners, R.entry (rules o) (s.entry o) (m.log o) := fun o ho =>
      hm.entries o ho fun _ => by rw [hpc]; rfl
    have hold := hentries p hp
    rw [hentry, R.live] at hold
    refine ⟨hm.owners, hm.completed, fun q hq => ?_, ⟨hpclogs.1, _, entry_setEntry_self s p _,
      HAKieSession.insert_lastFact hinsert, R.insert _ _ _ _ _ (hnode p) hold hinsert⟩,
      fun o ho hok => ?_⟩
    · cases hq
      exact hp
    · have hop : o ≠ p := by
        rintro rfl
        exact Bool.noConfusion (hok rfl)
      show R.entry (rules o) ((s.setEntry p _).entry o) (m.log o)
      rw [entry_setEntry_of_ne s hop]
      exact hentries o ho
  · have hpclogs := hm.pc
    simp only [PcLogs, hpc] at hpclogs
    refine ⟨hm.owners, hm.completed, fun q hq => hm.primary q (by rw [hpc]; exact hq),
      ⟨hpclogs.1, HAKieSession.insert_lastFact hinsert,
        R.insert _ _ _ _ _ (hnode p) hpclogs.2 hinsert⟩,
      fun o ho hok => hm.entries o ho fun hq => ?_⟩
    rw [hpc] at hq ⊢
    exact hok hq

/-- The put of the inserted session publishes the append. -/
theorem Logs.put (hm : s.Logs R rules m) (h : s.put = some s') :
    ∃ m', (Store.lts N F).exec m [.publish] = some m' ∧ s'.Logs R rules m' := by
  obtain ⟨p, f, k, rfl, hpc⟩ := put_eq_some h
  -- Either way the session has the fact, and the other owners' entries stand for their copies.
  have hinserted : s.pc.primary = some p ∧ m.phase = .begun p f ∧ k.lastFact = some f ∧
      R.session (rules p) k (m.log p ++ [f]) := by
    have hpclogs := hm.pc
    rcases hpc with ⟨hpc, hentry⟩ | ⟨emptied, hpc⟩
    · simp only [PcLogs, hpc] at hpclogs
      obtain ⟨hphase, k', hk', hlast, hsession⟩ := hpclogs
      cases hentry.symm.trans hk'
      exact ⟨by rw [hpc]; rfl, hphase, hlast, hsession⟩
    · simp only [PcLogs, hpc] at hpclogs
      exact ⟨by rw [hpc]; rfl, hpclogs.1, hpclogs.2.1, hpclogs.2.2⟩
  obtain ⟨hprimary, hphase, hlast, hsession⟩ := hinserted
  refine ⟨{ m with
    log := Function.update m.log p (m.log p ++ [f]), phase := .shipping p f (m.owners.erase p) },
    ?_, Logs.ship hm.owners hm.completed (hm.primary p hprimary) ?_ ⟨?_, ?_⟩ fun o ho hop => ?_⟩
  · simp [Lts.exec, Store.lts, hphase]
  · show R.session _ k (Function.update m.log p (m.log p ++ [f]) p)
    rw [Function.update_self]
    exact hsession
  · rw [hm.owners]
  · simp [HAKieSession.delta, hlast, Delta.facts]
  · show R.entry _ _ (Function.update m.log p (m.log p ++ [f]) o)
    rw [Function.update_of_ne hop]
    refine hm.entries o ho fun hq => ?_
    rw [hprimary, Option.some.injEq] at hq
    exact absurd hq.symm hop

/-- A merge of the fact is a merge of the append; a merge of a new session is none. -/
theorem Logs.merge (hnode : ∀ n, R.node (rules n)) (hm : s.Logs R rules m) {o : N}
    (hmerges : R.merges (s.entry o)) (h : s.merge rules o = some s') :
    ∃ m', (Store.lts N F).exec m (s.label (.merge o)) = some m' ∧ s'.Logs R rules m' := by
  obtain ⟨p, f, delta, left, last, fr, hpc, ho, hmerge, rfl⟩ := merge_eq_some h
  have hpclogs := hm.pc
  simp only [PcLogs, hpc] at hpclogs
  obtain ⟨⟨k, hk⟩, hleft, hphase⟩ := hpclogs
  obtain ⟨hop, howner⟩ := Finset.mem_erase.1 (hleft ho)
  have hentries : ∀ q ∈ s.owners, R.entry (rules q) (s.entry q) (m.log q) := fun q hq =>
    hm.entries q hq fun _ => by rw [hpc]; rfl
  have hmerged := R.merge _ _ _ _ _ (hnode o) (hentries o howner) hmerges hmerge
  have hlive : (s.setEntry o fr.this).entry p = some (.live k) := by
    rw [entry_setEntry_of_ne s hop.symm]
    exact hk
  have hprimary : ∀ q, some p = some q → q ∈ s.owners := fun q hq =>
    hm.primary q (by rw [hpc]; exact hq)
  cases last with
  | true =>
    simp only [if_true] at hphase
    rw [hphase.2] at hmerged
    refine ⟨{ m with
      log := Function.update m.log o (m.log o ++ [f]), phase := .shipping p f (left.erase o) }, ?_,
      hm.owners, hm.completed, hprimary, ⟨⟨k, hlive⟩, (Finset.erase_subset o left).trans hleft,
        rfl, hphase.2⟩, fun q hq _ => ?_⟩
    · simp [Lts.exec, Store.lts, label, hpc, hphase.1, ho]
    · show R.entry _ ((s.setEntry o fr.this).entry q) (Function.update m.log o (m.log o ++ [f]) q)
      by_cases hqo : q = o
      · subst hqo
        rw [entry_setEntry_self, Function.update_self]
        exact hmerged
      · rw [entry_setEntry_of_ne s hqo, Function.update_of_ne hqo]
        exact hentries q hq
  | false =>
    simp only [Bool.false_eq_true, if_false] at hphase
    rw [hphase.2, List.append_nil] at hmerged
    refine ⟨m, by simp [label, hpc], hm.owners, hm.completed, hprimary,
      ⟨⟨k, hlive⟩, (Finset.erase_subset o left).trans hleft, hphase.1, hphase.2⟩, fun q hq _ => ?_⟩
    show R.entry _ ((s.setEntry o fr.this).entry q) (m.log q)
    by_cases hqo : q = o
    · subst hqo
      rw [entry_setEntry_self]
      exact hmerged
    · rw [entry_setEntry_of_ne s hqo]
      exact hentries q hq

/-- The end of the put of a fact is the acknowledgement. -/
theorem Logs.commit (hm : s.Logs R rules m) (h : s.commit = some s') :
    ∃ m', (Store.lts N F).exec m (s.label .commit) = some m' ∧ s'.Logs R rules m' := by
  obtain ⟨p, f, delta, last, k, hpc, hk, rfl⟩ := commit_eq_some h
  have hpclogs := hm.pc
  simp only [PcLogs, hpc] at hpclogs
  have hphase := hpclogs.2.2
  have hentries : ∀ o ∈ s.owners,
      R.entry (rules o) ((s.setEntry p (some (.live k.commit))).entry o) (m.log o) := by
    intro o ho
    have hold := hm.entries o ho fun _ => by rw [hpc]; rfl
    by_cases hop : o = p
    · subst hop
      rw [hk, R.live] at hold
      rw [entry_setEntry_self, R.live]
      exact R.commit _ _ _ hold
    · rw [entry_setEntry_of_ne s hop]
      exact hold
  cases last with
  | true =>
    refine ⟨{ m with phase := .idle, acknowledged := m.acknowledged ++ [f] }, ?_, hm.owners, ?_,
      fun q hq => (by cases hq), rfl, fun o ho _ => hentries o ho⟩
    · simp [Lts.exec, Store.lts, label, hpc, hphase.1]
    · show m.acknowledged ++ [f] = s.completed ++ [f]
      rw [hm.completed]
  | false =>
    refine ⟨m, by simp [label, hpc], hm.owners, hm.completed, fun q hq => ?_,
      ⟨hphase.1, _, entry_setEntry_self s p _⟩, fun o ho _ => hentries o ho⟩
    exact hm.primary q (by rw [hpc]; exact hq)

/-- A snapshot is no step of the log. -/
theorem Logs.snapshot (hnode : ∀ n, R.node (rules n)) (hm : s.Logs R rules m) {o : N}
    (h : s.snapshot rules o = some s') : s'.Logs R rules m := by
  obtain ⟨v, fr, hentry, hbody, rfl⟩ := snapshot_eq_some h
  have hlive : ∀ {p h}, s.entry p = some (.live h) →
      (s.setEntry o (some (.serialized fr.this.saved))).entry p = some (.live h) := by
    intro p h hp
    rw [entry_setEntry_of_ne s, hp]
    rintro rfl
    rw [hentry] at hp
    cases hp
  refine ⟨hm.owners, hm.completed, hm.primary, ?_, fun q hq hok => ?_⟩
  · have hpc := hm.pc
    obtain ⟨owners, entry, pc, completed⟩ := s
    cases pc with
    | idle | fetched => exact hpc
    | ready p f session =>
      cases session with
      | stored => exact ⟨hpc.1, hpc.2.imp fun k hk => hlive hk⟩
      | rebuilt k emptied => exact hpc
    | inserted p f session =>
      cases session with
      | stored => exact ⟨hpc.1, hpc.2.imp fun k hk => ⟨hlive hk.1, hk.2⟩⟩
      | rebuilt k emptied => exact hpc
    | shipping p f delta left last => exact ⟨hpc.1.imp fun k hk => hlive hk, hpc.2⟩
  · have hold := hm.entries q hq hok
    show R.entry _ ((s.setEntry o (some (.serialized fr.this.saved))).entry q) (m.log q)
    by_cases hqo : q = o
    · subst hqo
      rw [hentry] at hold
      rw [entry_setEntry_self]
      exact R.snapshot _ _ _ _ (hnode q) hold hbody
    · rw [entry_setEntry_of_ne s hqo]
      exact hold

/-- Every action at the key is a run of the log. -/
theorem Logs.step (hnode : ∀ n, R.node (rules n)) (hm : s.Logs R rules m)
    {a : Slot.Action N F} (hmerges : ∀ o, a = .merge o → R.merges (s.entry o))
    (h : s.step rules a = some s') :
    ∃ m', (Store.lts N F).exec m (s.label a) = some m' ∧ s'.Logs R rules m' := by
  cases a with
  | get p f => exact hm.get h
  | resolve => exact ⟨m, rfl, hm.resolve hnode h⟩
  | insert => exact ⟨m, rfl, hm.insert hnode h⟩
  | put => exact hm.put h
  | merge o => exact hm.merge hnode (hmerges o rfl) h
  | commit => exact hm.commit h
  | snapshot o => exact ⟨m, rfl, hm.snapshot hnode h⟩

/-- A change of a node's rules is no step of the log. -/
theorem Logs.migrate {node : N} {rm : RulesManager} {version : JString} (hupdates : R.updates)
    (hnode : ∀ n, R.node (rules n)) (hm : s.Logs R rules m)
    (h : (rules node).updateToVersion E version = .ok (true, rm)) :
    (s.migrate node (rm.newReleaseId version)).Logs R (Function.update rules node rm) m := by
  obtain ⟨-, hentry, hsession⟩ := R.update _ _ _ hupdates (hnode node) h
  obtain ⟨owners, entry, pc, completed⟩ := s
  have hentry' : ∀ o facts, R.entry (rules o) (entry o) facts →
      R.entry (Function.update rules node rm o) (if o = node then
        (entry o).map (DeltaAware.migrate (rm.newReleaseId version)) else entry o) facts := by
    intro o facts hold
    by_cases hon : o = node
    · subst hon
      rw [Function.update_self, if_pos rfl]
      exact hentry _ _ hold
    · rw [Function.update_of_ne hon, if_neg hon]
      exact hold
  have hsession' : ∀ p k facts, R.session (rules p) k facts →
      R.session (Function.update rules node rm p)
        (if p = node then k.migrate (rm.newReleaseId version) else k) facts := by
    intro p k facts hold
    by_cases hpn : p = node
    · subst hpn
      rw [Function.update_self, if_pos rfl]
      exact hsession _ _ hold
    · rw [Function.update_of_ne hpn, if_neg hpn]
      exact hold
  have hlive : ∀ {p k}, entry p = some (.live k) → (if p = node then
      (entry p).map (DeltaAware.migrate (rm.newReleaseId version)) else entry p) =
        some (.live (if p = node then k.migrate (rm.newReleaseId version) else k)) := by
    intro p k hp
    split
    · rw [hp]
      rfl
    · exact hp
  have hlast : ∀ {p : N} {k : HAKieSession E},
      (if p = node then k.migrate (rm.newReleaseId version) else k).lastFact = k.lastFact := by
    intro p k
    split <;> rfl
  obtain ⟨howners, hcompleted, hprimary, hpc, hentries⟩ := hm
  have hmap : ((⟨owners, entry, pc, completed⟩ : Slot N E).migrate node
      (rm.newReleaseId version)).pc.primary = pc.primary ∧
    ((⟨owners, entry, pc, completed⟩ : Slot N E).migrate node
      (rm.newReleaseId version)).pc.overlaps = pc.overlaps := by
    simp only [Slot.migrate]
    cases pc with
    | ready p f session => cases session <;> exact ⟨rfl, rfl⟩
    | inserted p f session => cases session <;> exact ⟨rfl, rfl⟩
    | idle | fetched | shipping => exact ⟨rfl, rfl⟩
  refine ⟨howners, hcompleted, fun p hp => hprimary p (hmap.1.symm.trans hp), ?_,
    fun o ho hok => hentry' o _ (hentries o ho fun hq => ?_)⟩
  · cases pc with
    | idle | fetched => exact hpc
    | ready p f session =>
      cases session with
      | stored => exact ⟨hpc.1, hpc.2.elim fun k hk => ⟨_, hlive hk⟩⟩
      | rebuilt k emptied => exact ⟨hpc.1, hsession' _ _ _ hpc.2⟩
    | inserted p f session =>
      cases session with
      | stored =>
        obtain ⟨hphase, k, hk, hlastFact, hk'⟩ := hpc
        exact ⟨hphase, _, hlive hk, hlast.trans hlastFact, hsession' _ _ _ hk'⟩
      | rebuilt k emptied => exact ⟨hpc.1, hlast.trans hpc.2.1, hsession' _ _ _ hpc.2.2⟩
    | shipping p f delta left last => exact ⟨hpc.1.elim fun k hk => ⟨_, hlive hk⟩, hpc.2⟩
  · rw [← hmap.2]
    exact hok (hmap.1.trans hq)

/-- The insert goes on when a node crashes that is not its primary owner, with the owners that are
left. -/
theorem PcLogs.crash (hpc : s.PcLogs R rules m) {n : N} (hn : s.pc.primary ≠ some n) :
    (s.crash n).PcLogs R rules (m.crash n) := by
  obtain ⟨owners, entry, pc, completed⟩ := s
  have hne : ∀ {p}, pc.primary = some p → p ≠ n := by
    rintro p hp rfl
    exact hn hp
  have hlive : ∀ {p k}, pc.primary = some p → entry p = some (.live k) →
      (Slot.crash ⟨owners, entry, pc, completed⟩ n).entry p = some (.live k) := fun hp hk =>
    (Function.update_of_ne (hne hp) _ _).trans hk
  unfold PcLogs
  rw [show (Slot.crash ⟨owners, entry, pc, completed⟩ n).pc = pc.lose n from if_neg hn]
  cases pc with
  | idle => exact Store.crash_idle (.inl hpc)
  | fetched p f => exact Store.crash_begun hpc (hne rfl)
  | ready p f session =>
    cases session with
    | stored => exact ⟨Store.crash_begun hpc.1 (hne rfl), hpc.2.imp fun k hk => hlive rfl hk⟩
    | rebuilt k emptied => exact ⟨Store.crash_begun hpc.1 (hne rfl), hpc.2⟩
  | inserted p f session =>
    cases session with
    | stored =>
      exact ⟨Store.crash_begun hpc.1 (hne rfl), hpc.2.imp fun k hk => ⟨hlive rfl hk.1, hk.2⟩⟩
    | rebuilt k emptied => exact ⟨Store.crash_begun hpc.1 (hne rfl), hpc.2⟩
  | shipping p f delta left last =>
    obtain ⟨hk, hleft, hphase⟩ := hpc
    refine ⟨hk.imp fun k hk => hlive rfl hk, ?_, ?_⟩
    · show left.erase n ⊆ (owners.erase n).erase p
      rw [Finset.erase_right_comm]
      exact Finset.erase_subset_erase n hleft
    · cases last with
      | true => exact ⟨Store.crash_shipping hphase.1 (hne rfl), hphase.2⟩
      | false => exact ⟨Store.crash_begun hphase.1 (hne rfl), hphase.2⟩

/-- A crash is a crash of the log. -/
theorem Logs.crash (hm : s.Logs R rules m) (n : N) : (s.crash n).Logs R rules (m.crash n) := by
  have howners : (m.crash n).owners = s.owners.erase n := by
    show m.owners.erase n = _
    rw [hm.owners]
  have hcopies : ∀ o ∈ s.owners.erase n, (s.pc.primary = some o → s.pc.overlaps = false) →
      R.entry (rules o) ((s.crash n).entry o) (m.log o) := by
    intro o ho hok
    obtain ⟨hon, ho⟩ := Finset.mem_erase.1 ho
    rw [show (s.crash n).entry o = s.entry o from Function.update_of_ne hon _ _]
    exact hm.entries o ho hok
  by_cases hn : s.pc.primary = some n
  · -- The insert is gone with its primary owner.
    have hidle : (s.crash n).pc = .idle := if_pos hn
    refine ⟨howners, hm.completed, fun p hp => ?_, ?_, fun o ho _ => hcopies o ho fun ho' => ?_⟩
    · rw [hidle] at hp
      cases hp
    · unfold PcLogs
      rw [hidle]
      exact Store.crash_idle (.inr (hm.primary_eq.trans hn))
    · rw [hn, Option.some.injEq] at ho'
      exact absurd ho'.symm (Finset.mem_erase.1 ho).1
  · have hkeeps : (s.crash n).pc.primary = s.pc.primary ∧
        (s.crash n).pc.overlaps = s.pc.overlaps := by
      show (s.pc.crash n).primary = _ ∧ (s.pc.crash n).overlaps = _
      rw [Pc.crash, if_neg hn]
      cases s.pc <;> exact ⟨rfl, rfl⟩
    refine ⟨howners, hm.completed, fun p hp => ?_, hm.pc.crash hn,
      fun o ho hok => hcopies o ho fun ho' => ?_⟩
    · rw [hkeeps.1] at hp
      refine Finset.mem_erase.2 ⟨?_, hm.primary p hp⟩
      rintro rfl
      exact hn hp
    · rw [← hkeeps.2]
      exact hok (hkeeps.1.trans ho')

/-- A transfer that does not overlap an insert gives the new owner a copy of the log. -/
theorem Logs.join (hnode : ∀ n, R.node (rules n)) (hm : s.Logs R rules m) {p n : N}
    (hok : s.pc.overlaps = false) (h : s.join codec rules p n = some s') :
    ∃ m', (Store.lts N F).exec m [.join p n] = some m' ∧ s'.Logs R rules m' := by
  unfold Slot.join at h
  split at h
  · obtain ⟨e, he, rfl⟩ := Option.map_eq_some_iff.1 h
    obtain ⟨hp, hn, hprimary⟩ := ‹_ ∧ _ ∧ _›
    have hentries : ∀ o ∈ s.owners, R.entry (rules o) (s.entry o) (m.log o) := fun o ho =>
      hm.entries o ho fun _ => hok
    have hcopy := R.transfer _ _ _ _ _ (hnode p) (hnode n) (hentries p hp) he
    have hold : ∀ o ∈ s.owners, (s.setEntry n e).entry o = s.entry o ∧
        Function.update m.log n (m.log p) o = m.log o := by
      intro o ho
      have hon : o ≠ n := by
        rintro rfl
        exact hn ho
      exact ⟨entry_setEntry_of_ne s hon e, Function.update_of_ne hon _ _⟩
    refine ⟨{ m with
      owners := Insert.insert n m.owners, log := Function.update m.log n (m.log p) }, ?_, ?_⟩
    · have hjoin : p ∈ m.owners ∧ n ∉ m.owners ∧ m.phase.primary.getD p = p := by
        rw [hm.owners, hm.primary_eq]
        exact ⟨hp, hn, hprimary⟩
      simp [Lts.exec, Store.lts, hjoin]
    · refine ⟨?_, hm.completed, fun q hq => Finset.mem_insert_of_mem (hm.primary q hq), ?_,
        fun o ho _ => ?_⟩
      · show Insert.insert n m.owners = Insert.insert n s.owners
        rw [hm.owners]
      · -- The primary owner of the insert under way is an old owner.
        have hpc := hm.pc
        have hprimary := hm.primary
        obtain ⟨owners, entry, pc, completed⟩ := s
        have hlive : ∀ {q k}, pc.primary = some q → entry q = some (.live k) →
            (Slot.setEntry ⟨owners, entry, pc, completed⟩ n e).entry q = some (.live k) :=
          fun hq hk => (hold _ (hprimary _ hq)).1.trans hk
        have hlog : ∀ {q}, pc.primary = some q → Function.update m.log n (m.log p) q = m.log q :=
          fun hq => (hold _ (hprimary _ hq)).2
        unfold PcLogs at hpc ⊢
        cases pc with
        | idle | fetched => exact hpc
        | ready q f session =>
          cases session with
          | stored => exact ⟨hpc.1, hpc.2.imp fun k hk => hlive rfl hk⟩
          | rebuilt k emptied => exact ⟨hpc.1, by simpa only [hlog rfl] using hpc.2⟩
        | inserted q f session =>
          cases session with
          | stored => cases hok
          | rebuilt k emptied => exact ⟨hpc.1, hpc.2.1, by simpa only [hlog rfl] using hpc.2.2⟩
        | shipping q f delta left last =>
          refine ⟨hpc.1.imp fun k hk => hlive rfl hk, ?_, hpc.2.2⟩
          exact hpc.2.1.trans (Finset.erase_subset_erase q (Finset.subset_insert n owners))
      · show R.entry (rules o) ((s.setEntry n e).entry o) (Function.update m.log n (m.log p) o)
        rcases Finset.mem_insert.1 ho with rfl | ho
        · rw [entry_setEntry_self, Function.update_self]
          exact hcopy
        · rw [(hold o ho).1, (hold o ho).2]
          exact hentries o ho
  · cases h

end Slot

namespace Grid

/-- The actions of the log of a key that an action of the grid stands for. -/
def CrashAction.label (k : K) (g : Grid K N E) :
    CrashAction K N F → List (PrimaryBackup.Action N F)
  | .transfer (.grid (.key k' action)) => if k' = k then (g.slot k).label action else []
  | .transfer (.grid (.updateToVersion _ _)) => []
  | .transfer (.join k' p n) => if k' = k then [.join p n] else []
  | .crash n => [.crash n]

/-- The node that an action crashes. -/
def CrashAction.crashes : CrashAction K N F → List N
  | .transfer _ => []
  | .crash n => [n]

/-- No transfer overlaps an insert of the key, and the meaning has the merges and the updates. -/
def Sound (R : Meaning E codec) (k : K) (g : Grid K N E) : CrashAction K N F → Prop
  | .transfer (.grid (.key k' action)) =>
    k' = k → ∀ o, action = .merge o → R.merges ((g.slot k).entry o)
  | .transfer (.grid (.updateToVersion _ _)) => R.updates
  | .transfer (.join k' _ _) => k' = k → (g.slot k).pc.overlaps = false
  | .crash _ => True

omit [DecidableEq N] [Fact F] in
/-- A log begins an append with every fact that is brought to its key, and crashes with the grid. -/
theorem label_begun (k : K) (g : Grid K N E) (a : CrashAction K N F) :
    (a.label k g).flatMap PrimaryBackup.Action.begun = a.fact k ∧
      (a.label k g).flatMap PrimaryBackup.Action.crashes = a.crashes := by
  match a with
  | .transfer (.grid (.key k' action)) =>
    simp only [CrashAction.label, CrashAction.fact, TransferAction.fact, Action.fact,
      CrashAction.crashes]
    by_cases hk : k' = k
    · rw [if_pos hk, if_pos hk]
      cases action with
      | get p f => exact ⟨rfl, rfl⟩
      | merge o | commit =>
        simp only [Slot.label]
        split <;> exact ⟨rfl, rfl⟩
      | _ => exact ⟨rfl, rfl⟩
    · rw [if_neg hk, if_neg hk]
      exact ⟨rfl, rfl⟩
  | .transfer (.grid (.updateToVersion _ _)) => exact ⟨rfl, rfl⟩
  | .transfer (.join k' p n) =>
    simp only [CrashAction.label]
    split <;> exact ⟨rfl, rfl⟩
  | .crash n => exact ⟨rfl, rfl⟩

end Grid

/-- A step of the grid is matched by the steps of the log of a key that it stands for. -/
theorem Meaning.logs_step (R : Meaning E codec) {k : K} {g g' : Grid K N E} {m : Store N F}
    {a : Grid.CrashAction K N F} (hnode : ∀ n, R.node (g.rules n))
    (hm : (g.slot k).Logs R g.rules m) (hok : Grid.Sound R k g a)
    (h : (Grid.crashLts E codec).step g a = some g') :
    ∃ m', (Store.lts N F).exec m (a.label k g) = some m' ∧
      (∀ n, R.node (g'.rules n)) ∧ (g'.slot k).Logs R g'.rules m' := by
  match a with
  | .transfer (.grid a) =>
    obtain ⟨k', action, s, rfl, hs, rfl⟩ | ⟨node, version, rm, rfl, hrm, rfl⟩ :=
      Grid.step_eq_some h
    · simp only [Grid.CrashAction.label]
      by_cases hk : k' = k
      · subst hk
        obtain ⟨m', hm', hlogs⟩ := hm.step hnode (hok rfl) hs
        exact ⟨m', by rw [if_pos rfl]; exact hm', hnode, by simpa using hlogs⟩
      · refine ⟨m, by rw [if_neg hk]; rfl, hnode, ?_⟩
        simpa [Ne.symm hk] using hm
    · refine ⟨m, rfl, fun n => ?_, hm.migrate hok hnode hrm⟩
      show R.node (Function.update g.rules node rm n)
      by_cases hn : n = node
      · subst hn
        rw [Function.update_self]
        exact (R.update _ _ _ hok (hnode n) hrm).1
      · rw [Function.update_of_ne hn]
        exact hnode n
  | .transfer (.join k' p n) =>
    simp only [Grid.crashLts, Grid.transferLts, Option.map_eq_some_iff] at h
    obtain ⟨s, hs, rfl⟩ := h
    simp only [Grid.CrashAction.label]
    by_cases hk : k' = k
    · subst hk
      obtain ⟨m', hm', hlogs⟩ := hm.join hnode (hok rfl) hs
      exact ⟨m', by rw [if_pos rfl]; exact hm', hnode, by simpa using hlogs⟩
    · refine ⟨m, by rw [if_neg hk]; rfl, hnode, ?_⟩
      simpa [Ne.symm hk] using hm
  | .crash n =>
    cases h
    exact ⟨m.crash n, rfl, hnode, hm.crash n⟩

/-- The entries of every key are a log with a primary and backups. -/
def Meaning.logs (R : Meaning E codec) (k : K) :
    Simulation (Grid.crashLts (K := K) (N := N) E codec) (Store.lts N F) (Grid.Sound R k)
      (fun g a => a.label k g) where
  rel g m := (∀ n, R.node (g.rules n)) ∧ (g.slot k).Logs R g.rules m
  step hrel hok h := R.logs_step hrel.1 hrel.2 hok h

/-- A crash takes no insert of the key with it. -/
def Grid.Spares (k : K) (g : Grid K N E) : CrashAction K N F → Prop
  | .transfer _ => True
  | .crash n => (g.slot k).pc.primary ≠ some n

/-- Where the crashes spare the inserts of the key, no append loses its primary. -/
def Meaning.intact (R : Meaning E codec) (k : K) :
    Simulation (Grid.crashLts (K := K) (N := N) E codec) (Store.lts N F)
      (fun g a => Grid.Sound R k g a ∧ Grid.Spares k g a) (fun g a => a.label k g) where
  rel g m := (R.logs k).rel g m ∧ m.Inv ∧ m.aborted = 0
  step := by
    rintro g m a g' ⟨hlogs, hinv, haborted⟩ ⟨hsound, hspares⟩ h
    obtain ⟨m', hm', hlogs'⟩ := (R.logs k).step hlogs hsound h
    have hinv' := (Store.lts N F).exec_invariant Store.Inv (fun _ _ _ hi hs => hi.step hs) hinv hm'
    refine ⟨m', hm', hlogs', hinv', ?_⟩
    cases a with
    | transfer a =>
      have hle := Store.exec_aborted hm'
      rw [(Grid.label_begun k g (.transfer a)).2, haborted] at hle
      exact Nat.le_zero.1 hle
    | crash n =>
      cases hm'
      have hprimary : m.phase.primary ≠ some n := hlogs.2.primary_eq ▸ hspares
      show (if m.phase.primary = some n then m.aborted + 1 else m.aborted) = 0
      rw [if_neg hprimary, haborted]

/-- An empty cache is an empty log. -/
theorem Meaning.logs_start (R : Meaning E codec) {rules : N → RulesManager}
    (hnode : ∀ n, R.node (rules n)) (owners : K → Finset N) (k : K) :
    (R.logs k).rel (Grid.start rules owners) (Store.new (owners k)) :=
  ⟨hnode, rfl, rfl, fun _ hp => (by cases hp), rfl, fun _ _ _ => (R.absent _ _).2 rfl⟩

theorem Meaning.intact_start (R : Meaning E codec) {rules : N → RulesManager}
    (hnode : ∀ n, R.node (rules n)) (owners : K → Finset N) (k : K) :
    (R.intact k).rel (Grid.start rules owners) (Store.new (owners k)) :=
  ⟨R.logs_start hnode owners k, Store.inv_new _, rfl⟩

/-- Whenever no insert is under way, the entries of the owners stand for the facts of the inserts
that have returned. -/
theorem Meaning.intact_idle (R : Meaning E codec) {g : Grid K N E} {k : K} {m : Store N F}
    (hrel : (R.intact k).rel g m) (hidle : (g.slot k).pc = .idle) {o : N}
    (ho : o ∈ (g.slot k).owners) :
    R.entry (g.rules o) ((g.slot k).entry o) (g.slot k).completed := by
  obtain ⟨⟨-, hlogs⟩, hinv, haborted⟩ := hrel
  have hphase : m.phase = .idle := by
    have := hlogs.pc
    simpa only [Slot.PcLogs, hidle] using this
  have hlog : m.log o = m.acknowledged := by
    rw [hinv.log_of_aborted_eq_zero haborted (hlogs.owners ▸ ho), hphase]
  rw [← hlogs.completed, ← hlog]
  exact hlogs.entries o ho fun _ => by rw [hidle]; rfl

/-- The session that a fact is inserted in stands for the facts of the inserts that have returned.
-/
theorem Meaning.intact_insert (R : Meaning E codec) {g : Grid K N E} {k : K} {m : Store N F}
    (hrel : (R.intact k).rel g m) {s : Slot N E} (h : (g.slot k).insert g.rules = some s) :
    ∃ p f session fr, HAKieSession.insert (g.rules p) f ⟨session, []⟩ = .ok () fr ∧
      R.node (g.rules p) ∧ R.session (g.rules p) session (g.slot k).completed ∧
      (((g.slot k).pc = .ready p f .stored ∧ (g.slot k).entry p = some (.live session)) ∨
        ∃ emptied, (g.slot k).pc = .ready p f (.rebuilt session emptied)) := by
  obtain ⟨⟨hnode, hlogs⟩, hinv, haborted⟩ := hrel
  obtain ⟨p, f, session, fr, hinsert, hpc⟩ := Slot.insert_eq_some h
  have hlog : m.phase = .begun p f → p ∈ (g.slot k).owners → m.log p = (g.slot k).completed := by
    intro hphase hp
    rw [hinv.log_of_aborted_eq_zero haborted (hlogs.owners ▸ hp), hphase]
    exact hlogs.completed
  have hpclogs := hlogs.pc
  rcases hpc with ⟨hpc, hentry, -⟩ | ⟨emptied, hpc, -⟩ <;>
    simp only [Slot.PcLogs, hpc] at hpclogs <;>
    have hp : p ∈ (g.slot k).owners := hlogs.primary p (by rw [hpc]; rfl)
  · have hold := hlogs.entries p hp fun _ => by rw [hpc]; rfl
    rw [hentry, R.live, hlog hpclogs.1 hp] at hold
    exact ⟨p, f, session, fr, hinsert, hnode p, hold, .inl ⟨hpc, hentry⟩⟩
  · rw [hlog hpclogs.1 hp] at hpclogs
    exact ⟨p, f, session, fr, hinsert, hnode p, hpclogs.2, .inr ⟨emptied, hpc⟩⟩

end Hacep
