import Hacep.Grid.Failover
import Hacep.Session.Externalizer

/-!
# State transfer

A node that becomes an owner of a key receives what the primary owner holds at that moment, encoded
by an externalizer, and the delta of every later put. An insert changes the live session of the
primary owner before it puts it, and a rebuild empties the session that the primary owner holds
before the rebuilt one is put, so a transfer in between gives the new owner the fact of the insert
twice, or none of the facts of the emptied buffer (`Pc.overlaps`). At every other moment the new
owner has what every owner has: `agree_of_no_overlap`.
-/

namespace Hacep

open Java Wire

variable {K N F : Type} [DecidableEq K] [DecidableEq N]

section Slot

variable {E : KieEngine F}

/-- The primary owner of the insert under way. -/
def Pc.primary : Pc N E → Option N
  | .idle => none
  | .fetched p _ | .ready p _ _ | .inserted p _ _ | .shipping p _ _ _ _ => some p

/-- The primary owner holds something else than what the owners have agreed on: its live session has
taken a fact that is not put yet, or its serialized session has been emptied. -/
def Pc.overlaps : Pc N E → Bool
  | .inserted _ _ .stored => true
  | .ready _ _ (.rebuilt _ emptied) | .inserted _ _ (.rebuilt _ emptied) => emptied
  | _ => false

/-- What a reader makes of the written value of an entry; `none` where the value cannot be written
or read. -/
def Entry.transfer (codec : FactCodec F) (rm rm' : RulesManager) : Entry E → Option (Entry E)
  | none => some none
  | some v => do
    let bytes ← v.writeObject codec rm
    let (s, rest) ← (v.readObject codec rm').run bytes
    if rest = [] then some (some (.serialized s)) else none

/-- A new owner receives what the primary owner holds; between two inserts the primary owner is any
of the owners. -/
def Slot.join (codec : FactCodec F) (rules : N → RulesManager) (s : Slot N E) (primary newOwner : N) :
    Option (Slot N E) :=
  if primary ∈ s.owners ∧ newOwner ∉ s.owners ∧ (s.pc.primary.getD primary = primary) then
    (s.entry primary).transfer codec (rules primary) (rules newOwner) |>.map fun e =>
      { s.setEntry newOwner e with owners := Insert.insert newOwner s.owners }
  else none

/-- What holds of the serialized session of an entry. -/
def Entry.All (P : HAKieSerializedSession F → Prop) : Entry E → Prop
  | some (.serialized s) => P s
  | _ => True

end Slot

namespace Grid

/-- A run with transfers. -/
inductive TransferAction (K N F : Type)
  | grid (action : Action K N F)
  | join (k : K) (primary newOwner : N)
  deriving DecidableEq, Repr

/-- The fact that an action brings to a key. -/
def TransferAction.fact (k : K) : TransferAction K N F → List F
  | .grid action => action.fact k
  | .join _ _ _ => []

variable (E : KieEngine F) [Fact F]

/-- The grid, with transfers. -/
def transferLts (codec : FactCodec F) : Lts (Grid K N E) (TransferAction K N F) where
  step g
    | .grid action => (lts E).step g action
    | .join k primary newOwner =>
      ((g.slot k).join codec g.rules primary newOwner).map fun s =>
        { g with slot := Function.update g.slot k s }

/-- No transfer overlaps an insert. -/
def NoOverlap {E : KieEngine F} (g : Grid K N E) : TransferAction K N F → Prop
  | .grid _ => True
  | .join k _ _ => (g.slot k).pc.overlaps = false

instance {E : KieEngine F} (g : Grid K N E) :
    ∀ a : TransferAction K N F, Decidable (NoOverlap g a)
  | .grid _ => isTrue trivial
  | .join k _ _ => inferInstanceAs (Decidable ((g.slot k).pc.overlaps = false))

end Grid

/-! ## The bytes of the stored sessions -/

/-- A wrapped session is a constructed one. -/
theorem HAKieSession.constructed_of_wrap {E : KieEngine F} {rm : RulesManager} {k : HAKieSession E}
    {s : HAKieSerializedSession F} (h : k.wrapWithSerializedSession rm = .ok s) :
    HAKieSerializedSession.Constructed E s := by
  unfold wrapWithSerializedSession at h
  split at h
  · simp only [except_bind_eq_ok] at h
    obtain ⟨r, -, container, -, bytes, hbytes, h⟩ := h
    cases h
    exact .inr ⟨rm, container, _, r.version, bytes, hbytes, rfl⟩
  · exact .inl ⟨rm, h⟩

section Bytes

variable {E : KieEngine F} [Fact F] {P : HAKieSerializedSession F → Prop}
  (hP : HAKieSerializedSession.Stable E P)
  (hnew : ∀ s, HAKieSerializedSession.Constructed E s → P s)
include hP hnew

/-- A merge keeps what no write of a serialized session breaks and every constructed one has. -/
theorem Delta.keeps_merge {rm : RulesManager} (delta : Delta F) :
    Keeps (Entry.All P) (delta.merge rm : Call E (Entry E) Unit) := by
  refine Keeps.this_bind fun d hd => ?_
  match delta, d with
  | .empty, some _ => exact .pure _
  | .empty, none => exact Keeps.lift_bind fun s hs => .modifyThis fun _ _ => hnew s (.inl ⟨rm, hs⟩)
  | .fact f, none =>
    refine Keeps.lift_bind fun s hs => ?_
    exact Keeps.onLocal_bind (hP.keeps_add f) (hnew s (.inl ⟨rm, hs⟩)) fun s' hs' =>
      .modifyThis fun _ _ => hs'
  | .fact f, some (.live k) =>
    refine Keeps.lift_bind fun s hs => ?_
    exact Keeps.onLocal_bind (hP.keeps_add f) (hnew s (HAKieSession.constructed_of_wrap hs))
      fun s' hs' => .modifyThis fun _ _ => hs'
  | .fact f, some (.serialized s) =>
    intro fr hfr
    have hs : P (finalFrame (HAKieSerializedSession.add (E := E) rm f ⟨s, fr.out⟩)).this :=
      hP.keeps_add f _ hd
    simp only [Entry.onSerialized]
    cases hadd : HAKieSerializedSession.add (E := E) rm f ⟨s, fr.out⟩ with
    | ok a fr' =>
      rw [hadd] at hs
      exact hs
    | error e fr' =>
      rw [hadd] at hs
      exact hs

omit [Fact F] hP hnew in
theorem Slot.all_setEntry {s : Slot N E} (hs : ∀ o, (s.entry o).All P) {o : N} {e : Entry E}
    (he : e.All P) (o' : N) : ((s.setEntry o e).entry o').All P := by
  by_cases h : o' = o
  · subst h
    simpa [setEntry] using he
  · simpa [setEntry, h] using hs o'

/-- Every action of a slot does too. -/
theorem Slot.step_all {s s' : Slot N E} {rules : N → RulesManager} {a : Slot.Action N F}
    (hs : ∀ o, (s.entry o).All P) (h : s.step rules a = some s') : ∀ o, (s'.entry o).All P := by
  cases a with
  | get p f =>
    obtain ⟨-, -, rfl⟩ := get_eq_some h
    exact hs
  | resolve =>
    obtain ⟨p, f, -, ⟨-, rfl⟩ | ⟨k, -, rfl⟩ | ⟨v, k, fr, hentry, -, hrebuild, rfl⟩⟩ :=
      resolve_eq_some h
    · exact all_setEntry hs trivial
    · exact hs
    · have hv : P v := by
        have := hs p
        rwa [hentry] at this
      exact all_setEntry hs (hP.keeps_rebuild.ok hrebuild hv)
  | insert =>
    obtain ⟨p, f, k, fr, -, ⟨-, -, rfl⟩ | ⟨emptied, -, rfl⟩⟩ := insert_eq_some h
    · exact all_setEntry hs trivial
    · exact hs
  | put =>
    obtain ⟨p, f, k, rfl, -⟩ := put_eq_some h
    exact all_setEntry hs trivial
  | merge o =>
    obtain ⟨p, f, delta, left, last, fr, -, -, hmerge, rfl⟩ := merge_eq_some h
    exact all_setEntry hs ((Delta.keeps_merge hP hnew delta).ok hmerge (hs o))
  | commit =>
    obtain ⟨p, f, delta, last, k, -, -, rfl⟩ := commit_eq_some h
    cases last <;> exact all_setEntry hs trivial
  | snapshot o =>
    obtain ⟨v, fr, hentry, hbody, rfl⟩ := snapshot_eq_some h
    have hv : P v := by
      have := hs o
      rwa [hentry] at this
    exact all_setEntry hs (hP.pending _ _ _ (hP.keeps_snapshotBody.ok hbody hv))

end Bytes

/-! ## Transfers -/

section Transfer

variable {E : KieEngine F} {H : FactHistory E} {codec : FactCodec F} {rm rm' : RulesManager}
  {r' : ReleaseId}
  (hmarshall : ∀ r s b, E.marshall r s = .ok b → b.val ≠ [])
include hmarshall

/-- What is read of a written entry has the history of the entry, and its bytes are not empty. -/
theorem Entry.transfer_eq_some (hr' : rm'.Running r') {e e' : Entry E}
    (he : e.All HAKieSerializedSession.BytesNonempty) (h : e.transfer codec rm rm' = some e') :
    e'.history H = e.history H ∧ e'.All HAKieSerializedSession.BytesNonempty := by
  match e with
  | none =>
    cases h
    exact ⟨rfl, trivial⟩
  | some (.serialized s) =>
    simp only [transfer, Option.bind_eq_bind, Option.bind_eq_some_iff] at h
    obtain ⟨bytes, hw, ⟨s', rest⟩, hread, h⟩ := h
    have htakes := HASerializedSessionExternalizer.readObject_writeObject hr'.getReleaseId he hw
    cases (show some (s', rest) = _ from hread.symm.trans htakes.run)
    cases h
    exact ⟨rfl, he⟩
  | some (.live k) =>
    simp only [transfer, Option.bind_eq_bind, Option.bind_eq_some_iff] at h
    obtain ⟨bytes, hw, ⟨s', rest⟩, hread, h⟩ := h
    obtain ⟨s, htakes, hhist, hs⟩ :=
      HASessionExternalizer.readObject_writeObject H hmarshall hr' hw
    cases (show some (s', rest) = _ from hread.symm.trans htakes.run)
    cases h
    exact ⟨hhist, hs.bytesNonempty hmarshall⟩

variable {rules : N → RulesManager}

omit hmarshall in
/-- The entries of the owners do not change when another one is added. -/
theorem Slot.update_entry_of_mem {s : Slot N E} {n q : N} {e : Entry E} (hn : n ∉ s.owners)
    (hq : q ∈ s.owners) : Function.update s.entry n e q = s.entry q := by
  have hqn : q ≠ n := by
    rintro rfl
    exact hn hq
  exact Function.update_of_ne hqn _ _

omit hmarshall in
/-- The insert under way has the session that it had, and the new owner gets no delta. -/
theorem Slot.SessionInv.addOwner {s : Slot N E} (hsession : s.SessionInv H) {n : N} {e : Entry E}
    (hok : s.pc.overlaps = false) (hn : n ∉ s.owners) :
    ({ s.setEntry n e with owners := Insert.insert n s.owners } : Slot N E).SessionInv H := by
  obtain ⟨owners, entry, pc, completed⟩ := s
  have hmem : ∀ {q}, q ∈ owners → q ∈ Insert.insert n owners := Finset.mem_insert_of_mem
  have hentry : ∀ {q}, q ∈ owners → Function.update entry n e q = entry q :=
    fun hq => update_entry_of_mem (s := ⟨owners, entry, pc, completed⟩) hn hq
  cases pc with
  | idle => trivial
  | fetched q f => exact hmem hsession
  | ready q f session =>
    cases session with
    | stored =>
      obtain ⟨hq, k, hk⟩ := hsession
      exact ⟨hmem hq, k, (hentry hq).trans hk⟩
    | rebuilt k emptied => exact ⟨hmem hsession.1, hsession.2⟩
  | inserted q f session =>
    cases session with
    | stored => cases hok
    | rebuilt k emptied => exact ⟨hmem hsession.1, hsession.2⟩
  | shipping q f delta left last =>
    obtain ⟨hq, hleft, ⟨k, hk⟩, hfacts⟩ := hsession
    refine ⟨hmem hq, ?_, ⟨k, (hentry hq).trans hk⟩, hfacts⟩
    exact hleft.trans (Finset.erase_subset_erase q (Finset.subset_insert n owners))

omit hmarshall in
/-- The new owner has what the primary owner has. -/
theorem Slot.Inv.newOwner {s : Slot N E} (hi : s.Inv H) {p n : N} {e : Entry E}
    (hok : s.pc.overlaps = false) (hp : p ∈ s.owners) (hn : n ∉ s.owners)
    (hprimary : s.pc.primary.getD p = p) (he : Entry.history H e = s.historyAt H p) :
    ({ s.setEntry n e with owners := Insert.insert n s.owners } : Slot N E).OwnerInv H n := by
  obtain ⟨owners, entry, pc, completed⟩ := s
  obtain ⟨hsession, howners⟩ := hi
  have hold := howners p hp
  have hhist : Entry.history H (Function.update entry n e n) = Entry.history H (entry p) := by
    rw [Function.update_self]
    exact he
  cases pc with
  | idle | fetched => exact hhist.trans hold
  | ready q f session =>
    cases session with
    | stored => exact hhist.trans hold
    | rebuilt => exact fun _ => hhist.trans (hold fun _ => hok)
  | inserted q f session =>
    cases session with
    | stored => cases hok
    | rebuilt => exact fun _ => hhist.trans (hold fun _ => hok)
  | shipping q f delta left last =>
    -- Neither of them waits for the delta: it left the primary owner before the transfer.
    obtain ⟨-, hleft, -⟩ := hsession
    have hqp : q = p := hprimary
    have hpl : p ∉ left := fun h => Finset.notMem_erase q owners (hqp ▸ hleft h)
    have hnl : n ∉ left := fun h => hn (Finset.mem_of_mem_erase (hleft h))
    simp only [OwnerInv, if_neg hpl] at hold
    show Entry.history H (Function.update entry n e n) =
      if n ∈ left then completed else completed ++ delta.facts
    rw [if_neg hnl]
    exact hhist.trans hold

omit hmarshall in
/-- An old owner has what it had. -/
theorem Slot.OwnerInv.addOwner {s : Slot N E} {n o : N} {e : Entry E} (hold : s.OwnerInv H o)
    (hok : s.pc.overlaps = false) (hn : n ∉ s.owners) (ho : o ∈ s.owners) :
    ({ s.setEntry n e with owners := Insert.insert n s.owners } : Slot N E).OwnerInv H o := by
  obtain ⟨owners, entry, pc, completed⟩ := s
  have hhist : Entry.history H (Function.update entry n e o) = Entry.history H (entry o) := by
    rw [update_entry_of_mem (s := ⟨owners, entry, pc, completed⟩) hn ho]
  cases pc with
  | idle | fetched | shipping => exact hhist.trans hold
  | ready q f session =>
    cases session with
    | stored => exact hhist.trans hold
    | rebuilt => exact fun h => hhist.trans (hold h)
  | inserted q f session =>
    cases session with
    | stored => cases hok
    | rebuilt => exact fun h => hhist.trans (hold h)

omit hmarshall in
/-- An owner that is added with the history of the primary owner keeps the invariant, where the
primary owner holds what the owners have agreed on. -/
theorem Slot.Inv.addOwner {s : Slot N E} (hi : s.Inv H) {p n : N} {e : Entry E}
    (hok : s.pc.overlaps = false) (hp : p ∈ s.owners) (hn : n ∉ s.owners)
    (hprimary : s.pc.primary.getD p = p) (he : Entry.history H e = s.historyAt H p) :
    ({ s.setEntry n e with owners := Insert.insert n s.owners } : Slot N E).Inv H := by
  refine ⟨hi.session.addOwner hok hn, fun o ho => ?_⟩
  rcases Finset.mem_insert.1 ho with rfl | ho
  · exact hi.newOwner hok hp hn hprimary he
  · exact (hi.owners o ho).addOwner hok hn ho

/-- A transfer that does not overlap an insert gives the new owner what every owner has. -/
theorem Slot.join_inv {s s' : Slot N E} {p n : N} (hn : ∃ r, (rules n).Running r)
    (hi : s.Inv H) (hall : ∀ o, (s.entry o).All HAKieSerializedSession.BytesNonempty)
    (hok : s.pc.overlaps = false) (h : s.join codec rules p n = some s') :
    s'.Inv H ∧ ∀ o, (s'.entry o).All HAKieSerializedSession.BytesNonempty := by
  obtain ⟨r, hr⟩ := hn
  unfold join at h
  split at h
  · obtain ⟨e, he, rfl⟩ := Option.map_eq_some_iff.1 h
    obtain ⟨hp, hn, hprimary⟩ := ‹_ ∧ _›
    obtain ⟨hhist, heall⟩ := Entry.transfer_eq_some (H := H) hmarshall hr (hall p) he
    exact ⟨hi.addOwner hok hp hn hprimary hhist, all_setEntry hall heall⟩
  · cases h

end Transfer

namespace Grid

variable {E : KieEngine F} [Fact F] {H : FactHistory E} {codec : FactCodec F}
  {rules : N → RulesManager} {owners : K → Finset N}

/-- The invariant of a grid with transfers. -/
structure Inv (H : FactHistory E) (g : Grid K N E) : Prop where
  /-- Every node runs some release. -/
  running : ∀ n, ∃ r, (g.rules n).Running r
  /-- Every slot has its invariant. -/
  slot : ∀ k, (g.slot k).Inv H
  /-- The bytes of the stored sessions are not empty. -/
  bytes : ∀ k o, ((g.slot k).entry o).All HAKieSerializedSession.BytesNonempty

/-- An action of the grid keeps the invariant. -/
theorem Inv.step (hmarshall : ∀ r s b, E.marshall r s = .ok b → b.val ≠ []) {g g' : Grid K N E}
    {a : Action K N F} (hi : g.Inv H) (h : (lts E).step g a = some g') : g'.Inv H := by
  have hslot := step_inv hi.slot h
  obtain ⟨k', action, s, -, hs, rfl⟩ | ⟨node, version, rm, -, hrm, rfl⟩ := step_eq_some h
  · refine ⟨hi.running, hslot, fun k => ?_⟩
    by_cases hk : k = k'
    · subst hk
      have := Slot.step_all (HAKieSerializedSession.stable_bytesNonempty hmarshall)
        (fun s hs => hs.bytesNonempty hmarshall) (hi.bytes k) hs
      simpa using this
    · simpa [hk] using hi.bytes k
  · refine ⟨fun n => ?_, hslot, fun k o => ?_⟩
    · by_cases hn : n = node
      · subst hn
        obtain ⟨r, hr⟩ := hi.running n
        have := (RulesManager.updateToVersion_running hr hrm).2
        exact ⟨_, by simpa using this⟩
      · simpa [hn] using hi.running n
    · have := hi.bytes k o
      simp only [Slot.migrate]
      split
      · rcases hentry : (g.slot k).entry o with _ | (_ | s)
        · trivial
        · trivial
        · rwa [hentry] at this
      · exact this

/-- A transfer that does not overlap an insert keeps the invariant. -/
theorem Inv.transferStep (hmarshall : ∀ r s b, E.marshall r s = .ok b → b.val ≠ [])
    {g g' : Grid K N E} {a : TransferAction K N F} (hi : g.Inv H) (hok : NoOverlap g a)
    (h : (transferLts E codec).step g a = some g') : g'.Inv H := by
  cases a with
  | grid a => exact hi.step hmarshall h
  | join k p n =>
    simp only [transferLts, Option.map_eq_some_iff] at h
    obtain ⟨s, hs, rfl⟩ := h
    obtain ⟨hslot, hbytes⟩ :=
      Slot.join_inv hmarshall (hi.running n) (hi.slot k) (hi.bytes k) hok hs
    refine ⟨hi.running, fun k' => ?_, fun k' => ?_⟩
    · by_cases hk : k' = k
      · subst hk
        simpa using hslot
      · simpa [hk] using hi.slot k'
    · by_cases hk : k' = k
      · subst hk
        simpa using hbytes
      · simpa [hk] using hi.bytes k'

/-- A transfer brings no fact. -/
theorem transfer_pending {g g' : Grid K N E} {a : TransferAction K N F}
    (h : (transferLts E codec).step g a = some g') (k : K) :
    (g'.slot k).completed ++ (g'.slot k).pending =
      (g.slot k).completed ++ (g.slot k).pending ++ a.fact k := by
  cases a with
  | grid a => exact (step_pending h k).1
  | join k' p n =>
    simp only [transferLts, Option.map_eq_some_iff] at h
    obtain ⟨s, hs, rfl⟩ := h
    rw [TransferAction.fact, List.append_nil]
    by_cases hk : k = k'
    · subst hk
      unfold Slot.join at hs
      split at hs
      · obtain ⟨e, -, rfl⟩ := Option.map_eq_some_iff.1 hs
        simp [Slot.pending, Slot.setEntry]
      · cases hs
    · simp [hk]

/-- Where no transfer overlaps an insert, every owner of a key, also one that was transferred to,
has the facts of all inserts whenever no insert is under way. -/
theorem agree_of_no_overlap (H : FactHistory E)
    (hmarshall : ∀ r s b, E.marshall r s = .ok b → b.val ≠ [])
    (hrules : ∀ n, ∃ r, (rules n).Running r) {actions : List (TransferAction K N F)}
    (hguarded : (transferLts E codec).Guarded NoOverlap (start rules owners) actions)
    {g : Grid K N E} (h : (transferLts E codec).exec (start rules owners) actions = some g) {k : K}
    (hidle : (g.slot k).pc = .idle) {o : N} (ho : o ∈ (g.slot k).owners) :
    Entry.history H ((g.slot k).entry o) = actions.flatMap (TransferAction.fact k) := by
  have hstart : (start rules owners : Grid K N E).Inv H :=
    ⟨hrules, fun k => ⟨trivial, fun o ho => rfl⟩, fun k o => trivial⟩
  have hinv := (transferLts E codec).exec_guarded_invariant NoOverlap (Inv H)
    (fun g a g' hi hok hs => hi.transferStep hmarshall hok hs) hstart hguarded h
  have hfacts := (transferLts E codec).exec_log
    (fun g => (g.slot k).completed ++ (g.slot k).pending) (TransferAction.fact k)
    (fun g a g' hs => transfer_pending hs k) h
  have howner := (hinv.slot k).owners o ho
  simp only [Slot.OwnerInv, hidle] at howner
  simp only [Slot.pending, hidle, List.append_nil] at hfacts
  exact howner.trans hfacts

/-- Actions at the one key. -/
def atKey (actions : List (Slot.Action Bool Reading)) : List (TransferAction Unit Bool Reading) :=
  actions.map fun a => .grid (.key () a)

/-- The one owner takes a reading, then a second node becomes an owner, then the first takes another
reading. -/
def joinBetween : List (TransferAction Unit Bool Reading) :=
  atKey [.get false ⟨7⟩, .resolve, .commit, .insert, .put, .commit] ++ [.join () false true] ++
    atKey [.get false ⟨9⟩, .resolve, .insert, .put, .merge true, .commit]

theorem agree_of_no_overlap_joinBetween :
    ∃ g : Grid Unit Bool (recorder fun _ _ => .completed),
      (transferLts _ readingCodec).exec (start (fun _ => Recorder.manager (jstr "1"))
        fun _ => {false}) joinBetween = some g ∧ true ∈ (g.slot ()).owners ∧
      ∀ o ∈ (g.slot ()).owners, Entry.history (recorderHistory _) ((g.slot ()).entry o) =
        [⟨7⟩, ⟨9⟩] := by
  have hrun : ((transferLts (recorder fun _ _ => .completed) readingCodec).exec
      (start (fun _ : Bool => Recorder.manager (jstr "1")) fun _ => {false}) joinBetween).any
      (fun g => (g.slot ()).pc.isIdle && decide (true ∈ (g.slot ()).owners)) := by
    decide +kernel
  obtain ⟨g, hg, hidle⟩ := (Option.any_eq_true _ _).1 hrun
  rw [Bool.and_eq_true, decide_eq_true_iff] at hidle
  refine ⟨g, hg, hidle.2, fun o ho => ?_⟩
  exact agree_of_no_overlap (k := ()) (recorderHistory _) (recorder_marshall_ne_nil _)
    (fun _ => ⟨_, Recorder.manager_running _⟩) (by decide +kernel) hg (Pc.isIdle_iff.1 hidle.1) ho

/-- The second node becomes an owner after the insertion and before the put. -/
def joinInside : List (TransferAction Unit Bool Reading) :=
  atKey [.get false ⟨7⟩, .resolve, .commit, .insert] ++ [.join () false true] ++
    atKey [.put, .merge true, .commit]

/-- Then it has the reading twice. -/
theorem joinInside_twice :
    ∃ g : Grid Unit Bool (recorder fun _ _ => .completed),
      (transferLts _ readingCodec).exec (start (fun _ => Recorder.manager (jstr "1"))
        fun _ => {false}) joinInside = some g ∧ (g.slot ()).pc.isIdle ∧
      Entry.history (recorderHistory _) ((g.slot ()).entry false) = [⟨7⟩] ∧
      Entry.history (recorderHistory _) ((g.slot ()).entry true) = [⟨7⟩, ⟨7⟩] := by
  have hrun : ((transferLts (recorder fun _ _ => .completed) readingCodec).exec
      (start (fun _ : Bool => Recorder.manager (jstr "1")) fun _ => {false}) joinInside).any
      (fun g => (g.slot ()).pc.isIdle &&
        decide (Entry.history (recorderHistory _) ((g.slot ()).entry false) = [⟨7⟩] ∧
          Entry.history (recorderHistory _) ((g.slot ()).entry true) = [⟨7⟩, ⟨7⟩])) := by
    decide +kernel
  obtain ⟨g, hg, h⟩ := (Option.any_eq_true _ _).1 hrun
  rw [Bool.and_eq_true, decide_eq_true_iff] at h
  exact ⟨g, hg, h⟩

end Grid

end Hacep
