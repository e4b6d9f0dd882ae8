import Hacep.Session.Externalizer

/-!
# What a transfer keeps

A session that moves keeps its snapshot, its version and its buffer exactly when it has a snapshot,
or has the version of the reader anyway: the version of a session without a snapshot is not written,
and the reader puts its own version in its place. The facts that are in the buffer of such a session
are then replayed under the reader's rules, not under the rules that they arrived under.

`rebuild_forget` is the other half of the statement: what `rebuild` does depends only on the three
fields that move. A pending snapshot stays with the session that it was created on.
-/

namespace Hacep

open Java Wire

variable {F : Type}

namespace HAKieSerializedSession

/-- The session with the counter and the latch of a new object. -/
def forget (s : HAKieSerializedSession F) : HAKieSerializedSession F :=
  { s with size := 0, latch := 0 }

section Ignores

variable {E : KieEngine F} [Fact F] {rm : RulesManager}

theorem ignores_replayLoop (facts : List F) :
    ∀ session : KieSession E, Ignores forget (replayLoop session facts) := by
  induction facts with
  | nil => exact fun session => .pure _
  | cons fact facts ih =>
    intro session
    refine Ignores.bind (.modifyThis fun s => rfl) fun _ => ?_
    exact Ignores.bind (.onLocal _ _) fun _ => Ignores.bind (.onLocal _ _) fun _ => ih _

theorem ignores_replayFacts (session : KieSession E) : Ignores forget (replayFacts rm session) := by
  refine Ignores.this_bind (fun s => rfl) fun s => ?_
  refine Ignores.bind ?_ fun _ => .pure _
  cases s.buffer.isEmpty with
  | true => exact .pure _
  | false =>
    refine Ignores.this_bind (fun s => rfl) fun s => ?_
    refine Ignores.bind (ignores_replayLoop _ _) fun _ => ?_
    exact Ignores.bind (.modifyThis fun s => rfl) fun _ => .onLocal _ _

theorem ignores_buildSession : Ignores forget (buildSession (E := E) rm) := by
  refine Ignores.this_bind (fun s => rfl) fun s => ?_
  refine Ignores.bind (.lift _) fun _ => ?_
  exact Ignores.bind (.lift _) fun _ => ignores_replayFacts _

theorem ignores_upgradeIfNeeded : Ignores forget (upgradeIfNeeded (E := E) rm) := by
  refine Ignores.this_bind (fun s => rfl) fun s => ?_
  refine Ignores.bind (.lift _) fun _ => .onlyIf _ ?_
  refine Ignores.this_bind (fun s => rfl) fun s => ?_
  refine Ignores.bind (.lift _) fun _ => ?_
  refine Ignores.bind (.lift _) fun _ => ?_
  refine Ignores.bind (ignores_replayFacts _) fun _ => ?_
  refine Ignores.bind (.lift _) fun _ => ?_
  refine Ignores.bind (.lift _) fun _ => ?_
  refine Ignores.bind (.lift _) fun _ => ?_
  refine Ignores.bind (.modifyThis fun s => rfl) fun _ => ?_
  exact Ignores.bind (.lift _) fun _ => .modifyThis fun s => rfl

/-- The rebuild of a session with the counter and the latch of a new object returns or throws the
same, with the same output. -/
theorem rebuild_forget : Ignores forget (rebuild (E := E) rm) := by
  refine Ignores.bind ?_ fun _ => ?_
  · refine Ignores.this_bind (fun s => rfl) fun s => .onlyIf _ ?_
    refine Ignores.tryCatchFinally ?_ fun s => rfl
    refine Ignores.bind ignores_upgradeIfNeeded fun _ => ?_
    refine Ignores.bind ignores_buildSession fun _ => ?_
    refine Ignores.bind (.lift _) fun _ => ?_
    exact Ignores.bind (.lift _) fun _ => .modifyThis fun s => rfl
  · refine Ignores.bind ignores_upgradeIfNeeded fun _ => ?_
    exact Ignores.bind ignores_buildSession fun _ => .pure _

end Ignores

end HAKieSerializedSession

section Keeps

variable (E : KieEngine F) [Fact F]

/-- A transfer to a reader keeps a serialized session: the reader takes exactly the written bytes,
its session has the same snapshot, version and buffer, and a rebuild of it does what a rebuild of
the original does, apart from a pending snapshot, which does not move. -/
def TransferKeeps (codec : FactCodec F) (rm' : RulesManager) (s : HAKieSerializedSession F) :
    Prop :=
  ∃ bytes s', HASerializedSessionExternalizer.writeObject codec s = some bytes ∧
    Takes (HASerializedSessionExternalizer.readObject codec rm') bytes s' ∧
    s'.session = s.session ∧ s'.version = s.version ∧ s'.buffer = s.buffer ∧
    ∀ (rm : RulesManager) out, HAKieSerializedSession.rebuild (E := E) rm ⟨s', out⟩ =
      mapThis HAKieSerializedSession.forget
        (HAKieSerializedSession.rebuild rm ⟨{ s with saving := false }, out⟩)

variable {E}

/-- A transfer to a reader keeps the facts of a live session. -/
def LiveTransferKeeps (H : FactHistory E) (rm rm' : RulesManager) (h : HAKieSession E) : Prop :=
  ∃ bytes s', HASessionExternalizer.writeObject rm h = some bytes ∧
    Takes (HASessionExternalizer.readObject rm') bytes s' ∧ s'.history H = h.history H

variable {codec : FactCodec F} {rm rm' : RulesManager} {r r' : ReleaseId}

/-- A serialized session whose facts can be written is kept exactly when it has a snapshot and a
version that fits its length field, or has no snapshot and the version of the reader. -/
theorem transferKeeps_iff (hr' : rm'.Running r') {s : HAKieSerializedSession F}
    (hne : s.BytesNonempty)
    (hcodec : (codec.writeObject s.buffer).isSome) :
    TransferKeeps E codec rm' s ↔
      if s.session.isSome then FitsUTF s.version else s.version = r'.version := by
  constructor
  · rintro ⟨bytes, s', hw, hread, -, hversion, -, -⟩
    have hcopy : s' = s.copy r' := hread.unique
      (HASerializedSessionExternalizer.readObject_writeObject hr'.getReleaseId hne hw)
    split
    · exact (HASerializedSessionExternalizer.writeObject_isSome.1 (by rw [hw]; rfl)).2 ‹_›
    · rw [hcopy, HAKieSerializedSession.copy, if_neg ‹_›] at hversion
      exact hversion.symm
  · intro h
    have hfits : s.session.isSome → FitsUTF s.version := fun hs => by rwa [if_pos hs] at h
    obtain ⟨bytes, hw⟩ := Option.isSome_iff_exists.1
      (HASerializedSessionExternalizer.writeObject_isSome.2 ⟨hcodec, hfits⟩)
    have hversion : (s.copy r').version = s.version := by
      rw [HAKieSerializedSession.copy]
      split
      · rfl
      · rw [if_neg ‹_›] at h
        exact h.symm
    refine ⟨bytes, s.copy r', hw,
      HASerializedSessionExternalizer.readObject_writeObject hr'.getReleaseId hne hw, rfl, hversion,
      rfl, ?_⟩
    intro rm out
    rw [← HAKieSerializedSession.rebuild_forget]
    congr 2
    rw [← hversion]
    rfl

omit [Fact F] in
/-- A live session that can be marshalled is kept exactly when the version of the writer fits its
length field. -/
theorem liveTransferKeeps_iff (H : FactHistory E)
    (hmarshall : ∀ r s b, E.marshall r s = .ok b → b.val ≠ []) (hr : rm.Running r)
    (hr' : rm'.Running r') {h : HAKieSession E}
    (hbytes : ∀ k, h.session = some k → ∃ b, E.marshall r k.state = .ok b) :
    LiveTransferKeeps H rm rm' h ↔ (h.session.isSome → FitsUTF r.version) := by
  have hwrite : (HASessionExternalizer.writeObject rm h).isSome ↔
      (h.session.isSome → FitsUTF r.version) := by
    rw [← writeUTF_isSome]
    unfold HASessionExternalizer.writeObject
    cases hs : h.session with
    | none => simp
    | some k =>
      obtain ⟨b, hb⟩ := hbytes k hs
      simp only [hr.getKieContainer, RulesManager.serialize, hr.checkStatus, hr.getReleaseId]
      simp only [bind, Except.bind, hb, Except.toOption, Option.bind_some]
      cases writeUTF r.version <;> simp
  rw [← hwrite]
  constructor
  · rintro ⟨bytes, s', hw, -⟩
    rw [hw]
    rfl
  · intro h
    obtain ⟨bytes, hw⟩ := Option.isSome_iff_exists.1 h
    obtain ⟨s', hread, hhist, -⟩ := HASessionExternalizer.readObject_writeObject H hmarshall hr' hw
    exact ⟨bytes, s', hw, hread, hhist⟩

/-- A transfer keeps the sessions that it should keep, exactly on these conditions: a reachable
serialized session has a snapshot and a version that fits the length field, or has no snapshot and
the version of the reader; a live session is empty, or the version of the writer fits. -/
theorem transfer_keeps_iff (H : FactHistory E) (codec : FactCodec F)
    (hmarshall : ∀ r s b, E.marshall r s = .ok b → b.val ≠ []) (hr : rm.Running r)
    (hr' : rm'.Running r') :
    (∀ s, Replica.Reachable E (HAKieSerializedSession.Constructed E) s →
        (codec.writeObject s.buffer).isSome →
        (TransferKeeps E codec rm' s ↔
          if s.session.isSome then FitsUTF s.version else s.version = r'.version)) ∧
      ∀ h : HAKieSession E, (∀ k, h.session = some k → ∃ b, E.marshall r k.state = .ok b) →
        (LiveTransferKeeps H rm rm' h ↔ (h.session.isSome → FitsUTF r.version)) :=
  ⟨fun _ hs hcodec =>
      transferKeeps_iff hr' ((HAKieSerializedSession.stable_bytesNonempty hmarshall).reachable
        (fun _ h => h.bytesNonempty hmarshall) hs) hcodec,
    fun _ hbytes => liveTransferKeeps_iff H hmarshall hr hr' hbytes⟩

end Keeps

/-- A session of version 1 with one buffered reading and no snapshot. -/
def unsavedSession : HAKieSerializedSession Reading where
  version := jstr "1"
  size := 1
  buffer := [⟨7⟩]

theorem unsavedSession_reachable :
    Replica.Reachable (recorder fun _ _ => .completed)
      (HAKieSerializedSession.Constructed (recorder fun _ _ => .completed)) unsavedSession :=
  ⟨⟨Recorder.manager (jstr "1"), { version := jstr "1" }⟩, [.add ⟨7⟩], _,
    .inl ⟨Recorder.manager (jstr "1"), rfl⟩, rfl, rfl⟩

theorem transfer_keeps_iff_unsaved :
    TransferKeeps (recorder fun _ _ => .completed) readingCodec (Recorder.manager (jstr "1"))
        unsavedSession ∧
      LiveTransferKeeps (recorderHistory fun _ _ => .completed) (Recorder.manager (jstr "2"))
        (Recorder.manager (jstr "1"))
        ⟨none, some (.ofState { clock := 7, alone := 1, readings := [⟨7⟩] })⟩ :=
  have h := transfer_keeps_iff (recorderHistory fun _ _ => .completed) readingCodec
    (recorder_marshall_ne_nil _) (Recorder.manager_running (jstr "2"))
    (Recorder.manager_running (jstr "1"))
  ⟨(h.1 unsavedSession unsavedSession_reachable rfl).2 rfl,
    (h.2 _ fun k hk => by cases hk; exact ⟨_, rfl⟩).2 fun _ => by decide⟩

/-- On a node of version 2 the session of version 1 comes out with version 2. -/
theorem transfer_changes_version :
    Replica.Reachable (recorder fun _ _ => .completed)
        (HAKieSerializedSession.Constructed (recorder fun _ _ => .completed)) unsavedSession ∧
      ¬TransferKeeps (recorder fun _ _ => .completed) readingCodec (Recorder.manager (jstr "2"))
        unsavedSession := by
  refine ⟨unsavedSession_reachable, fun h => ?_⟩
  have hne : unsavedSession.BytesNonempty := by
    intro bytes hbytes
    cases hbytes
  have := (transferKeeps_iff (Recorder.manager_running (jstr "2")) hne rfl).1 h
  revert this
  decide

end Hacep
