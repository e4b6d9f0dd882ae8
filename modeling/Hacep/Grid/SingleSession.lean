import Hacep.Grid.Crash
import Hacep.Session.StandsFor

/-!
# The sessions of a key are one session

The facts of a key are inserted by whichever owner is primary, into sessions that are serialized,
replayed, snapshotted, rebuilt and moved between nodes on the way. On the real channels all this is
one session of the engine that takes the facts one by one and fires after each of them
(`deliveries_eq_alone`): nothing is delivered twice, nothing is missing, and nothing is delivered
that the session alone would not deliver. Nodes may crash, become owners again and take over in
between, as long as no insert is lost with its primary owner, no transfer falls into an insertion and
the nodes stay on one release (`KeepsOne`). A snapshot is one step, as everywhere on the grid.

What is assumed of the engine is that it reads the sessions that it has written, and that firing a
buffer of facts at once leaves what firing after each of them leaves; the latter is not needed where
a merge never finds a fact in the buffer.
-/

namespace Hacep

open Java Wire PrimaryBackup HAKieSerializedSession

variable {K N F : Type} [DecidableEq K] [DecidableEq N] [Fact F] {E : KieEngine F}
  {codec : FactCodec F} {c : RulesConfiguration} {r : ReleaseId}

/-! ## Transfers -/

section Transfer

variable {rm rm' : RulesManager} {facts : List F}

omit [Fact F] in
/-- What is stored does not depend on the node that reads it. -/
theorem HAKieSerializedSession.Stores.of_running {s : HAKieSerializedSession F} {state : E.State}
    (h : Stores rm r s state) (hrm' : rm'.Running r) : Stores rm' r s state := by
  refine ⟨hrm', h.version, ?_⟩
  rw [← h.session]
  cases s.session with
  | none =>
    simp only [RulesManager.deserializeOrCreate, RulesManager.newKieSession, hrm'.checkStatus,
      h.running.checkStatus]
  | some bytes =>
    simp only [RulesManager.deserializeOrCreate, hrm'.checkStatus, h.running.checkStatus]

omit [Fact F] in
/-- On a node of the same release, a live session is read as the session that wraps it. -/
theorem HASessionExternalizer.readObject_wrap
    (hmarshall : ∀ r s b, E.marshall r s = .ok b → b.val ≠ []) (hrm : rm.Running r)
    (hrm' : rm'.Running r) {h : HAKieSession E} {bytes : List UInt8}
    (hw : HASessionExternalizer.writeObject rm h = some bytes) :
    ∃ s, h.wrapWithSerializedSession rm = .ok s ∧
      Takes (HASessionExternalizer.readObject rm') bytes s := by
  cases hs : h.session with
  | none =>
    simp only [HASessionExternalizer.writeObject, hs, Option.some.injEq] at hw
    subst hw
    have hnew : ∀ {rm : RulesManager}, rm.Running r → HAKieSerializedSession.new rm =
        .ok ({ version := r.version } : HAKieSerializedSession F) := by
      intro rm hrm
      simp [HAKieSerializedSession.new, hrm.getReleaseId, bind, Except.bind]
    refine ⟨_, by rw [HAKieSession.wrapWithSerializedSession, hs]; exact hnew hrm, ?_⟩
    rw [← List.append_nil (writeInt 0)]
    exact (takes_readInt 0).bind (takes_lift (by rw [hnew hrm']; rfl))
  | some session =>
    simp only [HASessionExternalizer.writeObject, hs, hrm.getKieContainer, hrm.getReleaseId,
      Option.bind_eq_bind, Option.bind_eq_some_iff, Except.toOption, Option.some.injEq] at hw
    obtain ⟨_, rfl, buffer, hbuffer, _, rfl, version, hversion, rfl⟩ := hw
    have hser : rm.serialize E ⟨r⟩ session = .ok buffer := by
      cases hb : rm.serialize E ⟨r⟩ session with
      | ok b => simp_all
      | error e => simp_all
    refine ⟨.ofBytes r.version buffer, ?_, (takes_readInt buffer.size).bind ?_⟩
    · simp [HAKieSession.wrapWithSerializedSession, hs, hrm.getKieContainer, hrm.getReleaseId, hser,
        bind, Except.bind]
    · rw [if_pos (JBytes.size_pos (serialize_ne_nil hmarshall hser))]
      exact (takes_readArray buffer).bind ((takes_readUTF hversion).bind_pure _)

/-- What a node of the same release reads stands for what was written. -/
theorem Entry.transfer_standsFor (hmarshall : ∀ r s b, E.marshall r s = .ok b → b.val ≠ [])
    (hround : E.RoundTrips r) (hrm : rm.Running r) (hrm' : rm'.Running r) {e e' : Entry E}
    (he : e.StandsFor rm r facts) (hbytes : e.All BytesNonempty)
    (h : e.transfer codec rm rm' = some e') :
    e'.StandsFor rm' r facts ∧ e'.All BytesNonempty := by
  match e with
  | none =>
    cases h
    exact ⟨he, trivial⟩
  | some (.serialized s) =>
    simp only [transfer, Option.bind_eq_bind, Option.bind_eq_some_iff] at h
    obtain ⟨bytes, hw, ⟨s', rest⟩, hread, h⟩ := h
    have htakes := HASerializedSessionExternalizer.readObject_writeObject hrm'.getReleaseId hbytes hw
    cases (show some (s', rest) = _ from hread.symm.trans htakes.run)
    cases h
    obtain ⟨stored, hstores, hbatch⟩ := he
    have hstores' := hstores.of_running hrm'
    refine ⟨⟨stored, ⟨hrm', ?_, hstores'.session⟩, hbatch⟩, hbytes⟩
    show (if s.session.isSome then s.version else r.version) = r.version
    rw [hstores.version, ite_self]
  | some (.live k) =>
    simp only [transfer, Option.bind_eq_bind, Option.bind_eq_some_iff] at h
    obtain ⟨bytes, hw, ⟨s', rest⟩, hread, h⟩ := h
    obtain ⟨s, hwrap, htakes⟩ :=
      HASessionExternalizer.readObject_wrap hmarshall hrm hrm' hw
    cases (show some (s', rest) = _ from hread.symm.trans htakes.run)
    cases h
    obtain ⟨⟨stored, hstores, hbatch⟩, -⟩ :=
      HAKieSession.wrapWithSerializedSession_standsFor hrm hround he hwrap
    refine ⟨⟨stored, hstores.of_running hrm', hbatch⟩, ?_⟩
    exact (HAKieSession.constructed_of_wrap hwrap).bytesNonempty hmarshall

end Transfer

/-- An entry stands for the session alone after some facts. The nodes run one release, and a merge
into a buffer that has facts needs the engine to absorb firings. -/
def Meaning.standsFor (codec : FactCodec F) (hnames : c.SameNames) (hround : E.RoundTrips r)
    (hmarshall : ∀ r s b, E.marshall r s = .ok b → b.val ≠ []) : Meaning E codec where
  node rm := rm.Running r ∧ rm.rulesConfiguration = c
  entry rm e facts := e.StandsFor rm r facts ∧ e.All BytesNonempty
  session rm h facts := h.current rm.rulesConfiguration r = .after E rm.rulesConfiguration r facts
  merges e := E.Absorbing r ∨ e.Unbuffered
  updates := False
  absent _ facts := ⟨fun h => h.1, fun h => ⟨h, trivial⟩⟩
  new _ _ := rfl
  live _ _ _ := ⟨fun h => h.1, fun h => ⟨h, trivial⟩⟩
  commit _ _ _ h := h
  rebuild := by
    rintro rm s h fr facts ⟨-, rfl⟩ ⟨hs, hbytes⟩ hsaving hrebuild
    obtain ⟨hsession, hkept⟩ := hs.rebuild hnames hsaving hrebuild
    refine ⟨hsession, fun hemptied => ⟨hkept hemptied, ?_⟩⟩
    exact (stable_bytesNonempty hmarshall).keeps_rebuild.ok hrebuild hbytes
  insert := by
    rintro rm h f fr facts ⟨hrm, -⟩ hh hinsert
    rw [(HAKieSession.insert_standsFor hrm hh hinsert).1]
    rfl
  merge := by
    rintro rm e delta fr facts ⟨hrm, -⟩ ⟨he, hbytes⟩ hmerges hmerge
    refine ⟨Delta.merge_standsFor hrm hround he hmerges hmerge, ?_⟩
    exact (Delta.keeps_merge (stable_bytesNonempty hmarshall)
      (fun _ hs => hs.bytesNonempty hmarshall) delta).ok hmerge hbytes
  snapshot := by
    rintro rm s fr facts - ⟨hs, hbytes⟩ hbody
    have hstable := stable_bytesNonempty (E := E) hmarshall
    refine ⟨hs.snapshot hround hbody, ?_⟩
    exact hstable.pending _ _ _ (hstable.keeps_snapshotBody.ok hbody hbytes)
  transfer := by
    rintro rm rm' e e' facts ⟨hrm, -⟩ ⟨hrm', -⟩ ⟨he, hbytes⟩ htransfer
    exact Entry.transfer_standsFor hmarshall hround hrm hrm' he hbytes htransfer
  update _ _ _ h := h.elim

/-! ## What a run delivers -/

/-- The fact of the insert under way, where a session has taken it. -/
def Pc.taken : Pc N E → List F
  | .inserted _ f _ | .shipping _ f _ _ true => [f]
  | _ => []

namespace Slot

/-- The fact that a session takes. -/
def taken (s : Slot N E) : Slot.Action N F → List F
  | .insert => s.pending
  | _ => []

/-- What the call of an action delivers. -/
def delivered (rules : N → RulesManager) (s : Slot N E) :
    Slot.Action N F → List (Delivery E.Message)
  | .resolve =>
    match s.pc with
    | .fetched p _ =>
      match s.entry p with
      | some (.serialized v) => (finalFrame (rebuild (E := E) (rules p) ⟨v, []⟩)).out
      | _ => []
    | _ => []
  | .insert =>
    match s.pc with
    | .ready p f .stored =>
      match s.entry p with
      | some (.live h) => (finalFrame (HAKieSession.insert (rules p) f ⟨h, []⟩)).out
      | _ => []
    | .ready p f (.rebuilt h _) => (finalFrame (HAKieSession.insert (rules p) f ⟨h, []⟩)).out
    | _ => []
  | .merge o =>
    match s.pc with
    | .shipping _ _ delta _ _ => (finalFrame (delta.merge (rules o) ⟨s.entry o, []⟩)).out
    | _ => []
  | .snapshot o =>
    match s.entry o with
    | some (.serialized v) => (finalFrame (snapshotBody (E := E) (rules o) ⟨v, []⟩)).out
    | _ => []
  | .get _ _ | .put | .commit => []

variable {s s' : Slot N E} {rules : N → RulesManager}

omit [DecidableEq N] in
/-- Nothing but an insertion delivers to a real channel. -/
theorem delivered_of_ne_insert {a : Slot.Action N F} (ha : a ≠ .insert) :
    (s.delivered rules a).filter (fun d => d.channel.isReal) = [] := by
  have hnil : ([] : List (Delivery E.Message)).filter (fun d => d.channel.isReal) = [] := rfl
  cases a with
  | insert => exact absurd rfl ha
  | get p f | put | commit => exact hnil
  | resolve =>
    simp only [delivered]
    split
    · split
      · exact quiet_rebuild _
      · exact hnil
    · exact hnil
  | merge o =>
    simp only [delivered]
    split
    · exact Delta.quiet_merge _ _
    · exact hnil
  | snapshot o =>
    simp only [delivered]
    split
    · exact quiet_snapshotBody _
    · exact hnil

/-- A session takes the fact of the insert under way, once. -/
theorem step_taken {a : Slot.Action N F} (h : s.step rules a = some s') :
    s'.completed ++ s'.pc.taken = s.completed ++ s.pc.taken ++ s.taken a := by
  cases a with
  | get p f =>
    obtain ⟨hpc, -, rfl⟩ := get_eq_some h
    simp [hpc, Pc.taken, taken]
  | resolve =>
    obtain ⟨p, f, hpc, ⟨-, rfl⟩ | ⟨k, -, rfl⟩ | ⟨v, k, fr, -, -, -, rfl⟩⟩ := resolve_eq_some h <;>
      simp [hpc, Pc.taken, taken, ship, setEntry]
  | insert =>
    obtain ⟨p, f, k, fr, -, ⟨hpc, -, rfl⟩ | ⟨emptied, hpc, rfl⟩⟩ := insert_eq_some h <;>
      simp [hpc, Pc.taken, taken, pending, setEntry]
  | put =>
    obtain ⟨p, f, k, rfl, ⟨hpc, -⟩ | ⟨emptied, hpc⟩⟩ := put_eq_some h <;>
      simp [hpc, Pc.taken, taken, ship, setEntry]
  | merge o =>
    obtain ⟨p, f, delta, left, last, fr, hpc, -, -, rfl⟩ := merge_eq_some h
    cases last <;> simp [hpc, Pc.taken, taken, setEntry]
  | commit =>
    obtain ⟨p, f, delta, last, k, hpc, -, rfl⟩ := commit_eq_some h
    cases last <;> simp [hpc, Pc.taken, taken, setEntry]
  | snapshot o =>
    obtain ⟨v, fr, -, -, rfl⟩ := snapshot_eq_some h
    simp [taken, setEntry]

end Slot

namespace Grid

/-- The fact that a session of the key takes. -/
def CrashAction.taken (k : K) (g : Grid K N E) : CrashAction K N F → List F
  | .transfer (.grid (.key k' action)) => if k' = k then (g.slot k).taken action else []
  | _ => []

/-- What an action delivers for the key. -/
def CrashAction.delivered (k : K) (g : Grid K N E) :
    CrashAction K N F → List (Delivery E.Message)
  | .transfer (.grid (.key k' action)) =>
    if k' = k then (g.slot k).delivered g.rules action else []
  | _ => []

/-- What of it goes to real channels. -/
def CrashAction.deliveredReal (k : K) (g : Grid K N E) (a : CrashAction K N F) :
    List (Delivery E.Message) := (a.delivered k g).filter fun d => d.channel.isReal

/-- Crashes aside, every fact that a session has taken stays taken. -/
theorem step_taken {g g' : Grid K N E} {k : K} {a : CrashAction K N F} (hspares : Spares k g a)
    (h : (crashLts E codec).step g a = some g') :
    (g'.slot k).completed ++ (g'.slot k).pc.taken =
      (g.slot k).completed ++ (g.slot k).pc.taken ++ a.taken k g := by
  match a with
  | .transfer (.grid a) =>
    obtain ⟨k', action, s, rfl, hs, rfl⟩ | ⟨node, version, rm, rfl, hrm, rfl⟩ := step_eq_some h
    · by_cases hk : k' = k
      · subst hk
        simpa [CrashAction.taken] using Slot.step_taken hs
      · simp [CrashAction.taken, hk, Ne.symm hk]
    · simp only [CrashAction.taken, List.append_nil, Slot.migrate]
      generalize (g.slot k).pc = pc
      rcases pc with _ | _ | ⟨_, _, _ | _⟩ | ⟨_, _, _ | _⟩ | _ <;> rfl
  | .transfer (.join k' p n) =>
    simp only [crashLts, transferLts, Option.map_eq_some_iff] at h
    obtain ⟨s, hs, rfl⟩ := h
    by_cases hk : k' = k
    · subst hk
      unfold Slot.join at hs
      split at hs
      · obtain ⟨e, -, rfl⟩ := Option.map_eq_some_iff.1 hs
        simp [CrashAction.taken, Slot.setEntry]
      · cases hs
    · simp [CrashAction.taken, Ne.symm hk]
  | .crash n =>
    cases h
    have hpc : ((g.slot k).crash n).pc = (g.slot k).pc.lose n := if_neg hspares
    simp only [CrashAction.taken, List.append_nil]
    rw [hpc]
    show (g.slot k).completed ++ _ = _
    generalize (g.slot k).pc = pc
    rcases pc with _ | _ | _ | _ | ⟨_, _, _, _, _ | _⟩ <;> rfl

section SingleSession

variable {g g' : Grid K N E} {k : K} {m : Store N F} {hnames : c.SameNames}
  {hround : E.RoundTrips r} {hmarshall : ∀ r s b, E.marshall r s = .ok b → b.val ≠ []}

/-- An insertion is what the session alone makes of the fact, and delivers what that delivers. -/
theorem insert_alone
    (hrel : ((Meaning.standsFor codec hnames hround hmarshall).intact k).rel g m) {s : Slot N E}
    (h : (g.slot k).insert g.rules = some s) :
    ∃ f, (g.slot k).pending = [f] ∧ (g.slot k).pc.taken = [] ∧
      KieSession.process f ⟨.after E c r (g.slot k).completed, []⟩ =
        .ok () ⟨.after E c r ((g.slot k).completed ++ [f]),
          (g.slot k).delivered g.rules .insert⟩ := by
  obtain ⟨p, f, session, fr, hinsert, ⟨hrm, rfl⟩, hsession, hpc⟩ :=
    (Meaning.standsFor codec hnames hround hmarshall).intact_insert hrel h
  have hprocess := (HAKieSession.insert_standsFor hrm hsession hinsert).2
  have hdelivered : (g.slot k).delivered g.rules .insert = fr.out := by
    rcases hpc with ⟨hpc, hentry⟩ | ⟨emptied, hpc⟩
    · simp only [Slot.delivered, hpc, hentry, hinsert, finalFrame]
    · simp only [Slot.delivered, hpc, hinsert, finalFrame]
  refine ⟨f, ?_, ?_, by rw [hdelivered]; exact hprocess⟩
  · rcases hpc with ⟨hpc, -⟩ | ⟨emptied, hpc⟩ <;> rw [Slot.pending, hpc]
  · rcases hpc with ⟨hpc, -⟩ | ⟨emptied, hpc⟩ <;> rw [hpc] <;> rfl

/-- An action is the insertion of the fact that a session takes, or delivers nothing to a real
channel. -/
theorem insert_or_quiet {a : CrashAction K N F} (h : (crashLts E codec).step g a = some g') :
    (∃ s, (g.slot k).insert g.rules = some s ∧ a.taken k g = (g.slot k).pending ∧
        a.delivered k g = (g.slot k).delivered g.rules .insert) ∨
      a.taken k g = [] ∧ a.deliveredReal k g = [] := by
  match a with
  | .transfer (.grid (.key k' action)) =>
    simp only [CrashAction.taken, CrashAction.deliveredReal, CrashAction.delivered]
    by_cases hk : k' = k
    · subst hk
      rw [if_pos rfl, if_pos rfl]
      by_cases haction : action = .insert
      · subst haction
        simp only [crashLts, transferLts, lts, Option.map_eq_some_iff] at h
        obtain ⟨s, hs, -⟩ := h
        exact .inl ⟨s, hs, rfl, rfl⟩
      · refine .inr ⟨?_, Slot.delivered_of_ne_insert haction⟩
        cases action with
        | insert => exact absurd rfl haction
        | _ => rfl
    · rw [if_neg hk, if_neg hk]
      exact .inr ⟨rfl, rfl⟩
  | .transfer (.grid (.updateToVersion _ _)) => exact .inr ⟨rfl, rfl⟩
  | .transfer (.join _ _ _) => exact .inr ⟨rfl, rfl⟩
  | .crash _ => exact .inr ⟨rfl, rfl⟩

/-- The session alone takes the fact that a session of the key takes, and the two deliver the same.
-/
theorem step_alone
    (hrel : ((Meaning.standsFor codec hnames hround hmarshall).intact k).rel g m)
    {a : CrashAction K N F} (h : (crashLts E codec).step g a = some g') :
    let session : KieSession E := .after E c r ((g.slot k).completed ++ (g.slot k).pc.taken)
    (KieSession.alone E).exec session (a.taken k g) =
        some (.after E c r ((g.slot k).completed ++ (g.slot k).pc.taken ++ a.taken k g)) ∧
      a.deliveredReal k g =
        (KieSession.alone E).trace KieSession.delivered session (a.taken k g) := by
  rcases insert_or_quiet h with ⟨s, hinsert, htaken, hdelivered⟩ | ⟨htaken, hquiet⟩
  · obtain ⟨f, hpending, hnone, hprocess⟩ := insert_alone hrel hinsert
    have hstep : (KieSession.alone E).step (.after E c r (g.slot k).completed) f =
        some (.after E c r ((g.slot k).completed ++ [f])) := by
      simp only [KieSession.alone, hprocess]
    rw [htaken, hpending, hnone, List.append_nil, CrashAction.deliveredReal, hdelivered]
    refine ⟨by rw [Lts.exec, hstep]; rfl, ?_⟩
    rw [Lts.trace_cons _ hstep, Lts.trace_nil, List.append_nil, KieSession.delivered, hprocess]
    exact KieSession.process_real hprocess
  · rw [htaken, hquiet]
    exact ⟨by rw [List.append_nil]; rfl, rfl⟩

/-- The sessions of a key are one session. -/
def singleSession (codec : FactCodec F) (hnames : c.SameNames) (hround : E.RoundTrips r)
    (hmarshall : ∀ r s b, E.marshall r s = .ok b → b.val ≠ []) (k : K) :
    Simulation (crashLts (K := K) (N := N) E codec) (KieSession.alone E)
      (fun g a => Sound (Meaning.standsFor codec hnames hround hmarshall) k g a ∧ Spares k g a)
      (fun g a => a.taken k g) where
  rel g s := (∃ m, ((Meaning.standsFor codec hnames hround hmarshall).intact k).rel g m) ∧
    s = .after E c r ((g.slot k).completed ++ (g.slot k).pc.taken)
  step := by
    rintro g s a g' ⟨⟨m, hrel⟩, rfl⟩ hok h
    obtain ⟨m', -, hrel'⟩ :=
      ((Meaning.standsFor codec hnames hround hmarshall).intact k).step hrel hok h
    exact ⟨_, (step_alone hrel h).1, ⟨m', hrel'⟩, by rw [step_taken hok.2 h]⟩

omit [DecidableEq N] [Fact F] in
/-- What has been taken is completed, or is the fact of the insert under way. -/
theorem taken_prefix_pending (s : Slot N E) : s.pc.taken <+: s.pending := by
  unfold Slot.pending
  rcases s.pc with _ | _ | _ | _ | ⟨_, _, _, _, _ | _⟩
  case inserted | shipping.true => exact List.prefix_refl _
  all_goals exact List.nil_prefix

end SingleSession

/-- No step changes the rules of a node, no transfer overlaps an insert of the key, and no crash
takes an insert of the key with it. -/
def KeepsOne (k : K) (g : Grid K N E) : CrashAction K N F → Prop
  | .transfer (.grid (.key _ _)) => True
  | .transfer (.grid (.updateToVersion _ _)) => False
  | .transfer (.join k' _ _) => k' = k → (g.slot k).pc.overlaps = false
  | .crash n => (g.slot k).pc.primary ≠ some n

/-- No merge at the key finds a fact in the buffer. -/
def MergesUnbuffered (k : K) (g : Grid K N E) : CrashAction K N F → Prop
  | .transfer (.grid (.key k' (.merge o))) => k' = k → ((g.slot k).entry o).Unbuffered
  | _ => True

instance (k : K) (g : Grid K N E) : ∀ a : CrashAction K N F, Decidable (KeepsOne k g a)
  | .transfer (.grid (.key _ _)) => isTrue trivial
  | .transfer (.grid (.updateToVersion _ _)) => isFalse id
  | .transfer (.join k' _ _) =>
    inferInstanceAs (Decidable (k' = k → (g.slot k).pc.overlaps = false))
  | .crash n => inferInstanceAs (Decidable ((g.slot k).pc.primary ≠ some n))

instance [DecidableEq F] (k : K) (g : Grid K N E) :
    ∀ a : CrashAction K N F, Decidable (MergesUnbuffered k g a)
  | .transfer (.grid (.key k' (.merge o))) =>
    inferInstanceAs (Decidable (k' = k → ((g.slot k).entry o).Unbuffered))
  | .transfer (.grid (.key _ (.get _ _))) | .transfer (.grid (.key _ .resolve))
  | .transfer (.grid (.key _ .insert)) | .transfer (.grid (.key _ .put))
  | .transfer (.grid (.key _ .commit)) | .transfer (.grid (.key _ (.snapshot _)))
  | .transfer (.grid (.updateToVersion _ _)) | .transfer (.join _ _ _) | .crash _ => isTrue trivial

omit [DecidableEq K] [DecidableEq N] [Fact F] in
theorem KeepsOne.spares {k : K} {g : Grid K N E} {a : CrashAction K N F} (h : KeepsOne k g a) :
    Spares k g a := by
  match a with
  | .transfer _ => trivial
  | .crash _ => exact h

omit [DecidableEq K] [DecidableEq N] in
theorem KeepsOne.sound {hnames : c.SameNames} {hround : E.RoundTrips r}
    {hmarshall : ∀ r s b, E.marshall r s = .ok b → b.val ≠ []} {k : K} {g : Grid K N E}
    {a : CrashAction K N F} (h : KeepsOne k g a)
    (hmerges : E.Absorbing r ∨ MergesUnbuffered k g a) :
    Sound (Meaning.standsFor codec hnames hround hmarshall) k g a ∧ Spares k g a := by
  match a with
  | .transfer (.grid (.key _ _)) =>
    refine ⟨fun hk o ha => hmerges.imp id fun hmerges => ?_, trivial⟩
    subst ha
    exact hmerges hk
  | .transfer (.grid (.updateToVersion _ _)) => exact h.elim
  | .transfer (.join _ _ _) => exact ⟨h, trivial⟩
  | .crash _ => exact ⟨trivial, h⟩

variable {rules : N → RulesManager} {owners : K → Finset N} {actions : List (CrashAction K N F)}
  {g : Grid K N E}

/-- What is delivered is what one session delivers that takes the facts which a session of the key
has taken; and whenever no insert is under way, every owner stores it. -/
theorem exec_alone (hnames : c.SameNames) (hround : E.RoundTrips r)
    (hmarshall : ∀ r s b, E.marshall r s = .ok b → b.val ≠ [])
    (hrules : ∀ n, (rules n).Running r ∧ (rules n).rulesConfiguration = c) {k : K}
    (hguarded : (crashLts E codec).Guarded (KeepsOne k) (start rules owners) actions)
    (hmerges : E.Absorbing r ∨
      (crashLts E codec).Guarded (MergesUnbuffered k) (start rules owners) actions)
    (h : (crashLts E codec).exec (start rules owners) actions = some g) :
    (crashLts E codec).trace (fun g a => a.deliveredReal k g) (start rules owners) actions =
        (KieSession.alone E).trace KieSession.delivered (.after E c r [])
          ((g.slot k).completed ++ (g.slot k).pc.taken) ∧
      (KieSession.alone E).exec (.after E c r []) ((g.slot k).completed ++ (g.slot k).pc.taken) =
        some (.after E c r ((g.slot k).completed ++ (g.slot k).pc.taken)) ∧
      ((g.slot k).pc = .idle → ∀ o ∈ (g.slot k).owners,
        ((g.slot k).entry o).StandsFor (g.rules o) r (g.slot k).completed) := by
  let R := Meaning.standsFor codec hnames hround hmarshall
  have hsound : (crashLts E codec).Guarded (fun g a => Sound R k g a ∧ Spares k g a)
      (start rules owners) actions := by
    rcases hmerges with habsorbing | hmerges
    · exact hguarded.mono _ fun _ _ h => h.sound (.inl habsorbing)
    · exact (Lts.Guarded.and _ hguarded hmerges).mono _ fun _ _ h => h.1.sound (.inr h.2)
  let S := singleSession (N := N) codec hnames hround hmarshall k
  have hstart : S.rel (start rules owners) (.after E c r []) :=
    ⟨⟨_, R.intact_start hrules owners k⟩, rfl⟩
  -- The facts that are taken are recorded in the state.
  have htaken := (crashLts E codec).guarded_log
    (fun g : Grid K N E => (g.slot k).completed ++ (g.slot k).pc.taken)
    (fun g a => CrashAction.taken k g a) (fun g a g' hok hs => step_taken hok.2 hs) hsound h
  have hfacts : (crashLts E codec).trace (fun g a => a.taken k g) (start rules owners) actions =
      (g.slot k).completed ++ (g.slot k).pc.taken := htaken.symm
  obtain ⟨s, hs, ⟨m, hrel⟩, rfl⟩ := S.run hstart hsound h
  have htrace := S.run_trace (fun g a => a.deliveredReal k g) KieSession.delivered
    (fun g s a g' hrel _ hs => by
      obtain ⟨⟨m, hrel⟩, rfl⟩ := hrel
      exact (step_alone hrel hs).2) hstart hsound h
  rw [hfacts] at hs htrace
  exact ⟨htrace, hs, fun hidle o ho => (R.intact_idle hrel hidle ho).1⟩

/-- A node of the recording engine that saves its buffer after each merge. -/
def eagerManager : RulesManager := { Recorder.manager (jstr "1") with gridBuffer := some 0 }

/-- Actions at the one key, without transfers and crashes. -/
def undisturbed (actions : List (Action Unit Bool Reading)) : List (CrashAction Unit Bool Reading) :=
  actions.map fun a => .transfer (.grid a)

/-- Two owners take turns; the second is gone for the third insert and joins again for the fourth. -/
def takingTurns : List (CrashAction Unit Bool Reading) :=
  undisturbed (insertOn () false true ⟨7⟩ true ++ [.key () (.snapshot true)] ++
      insertOn () true false ⟨9⟩ false ++ [.key () (.snapshot false)]) ++ [.crash true] ++
    crashAtKey [.get false ⟨3⟩, .resolve, .insert, .put, .commit] ++
    [.transfer (.join () false true)] ++ undisturbed (insertOn () true false ⟨4⟩ false)

end Grid

end Hacep
