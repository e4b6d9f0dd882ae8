import Hacep.Lib.Lts
import Hacep.Session.HAKieSerializedSession

/-!
# A serialized session on its node

A `Replica` is a serialized session together with the rules manager of the node that holds it. Its
events are the calls that reach it, with the rules-version changes of the node in between; a call
that throws leaves what it wrote before the exception.

A `Stable` property is one that no write of the class breaks. Every call keeps it whatever way the
call ends, so it holds of every session that a run reaches (`Stable.reachable`). That the bytes of a
session are never empty is one (`stable_bytesNonempty`). A `Lasting` property may speak of the
pending snapshot: what only replays and upgrades keeps it, such as a rebuild that does not wait.
-/

namespace Hacep

open Java

variable {F : Type}

/-- A serialized session and the rules manager of its node. -/
structure Replica (F : Type) where
  rulesManager : RulesManager
  session : HAKieSerializedSession F

namespace Replica

/-- What happens to a replica. -/
inductive Event (F : Type)
  | add (f : F)
  | createSnapshot
  /-- The pending snapshot runs. -/
  | snapshot
  | updateToVersion (version : JString)
  deriving DecidableEq, Repr

variable (E : KieEngine F)

/-- A call on the session. -/
def run (r : Replica F) (m : Call E (HAKieSerializedSession F) Unit) : Replica F :=
  { r with session := (finalFrame (m ⟨r.session, []⟩)).this }

/-- The replicas, with one event at a time. -/
def lts [Fact F] : Lts (Replica F) (Event F) where
  step r
    | .add f => some (r.run E (HAKieSerializedSession.add r.rulesManager f))
    | .createSnapshot => some (r.run E HAKieSerializedSession.createSnapshot)
    | .snapshot =>
      if r.session.saving then some (r.run E (HAKieSerializedSession.snapshotTask r.rulesManager))
      else none
    | .updateToVersion version =>
      match r.rulesManager.updateToVersion E version with
      | .ok (_, rulesManager) => some { r with rulesManager := rulesManager }
      | .error _ => some r

/-- The session is one that some node comes to hold: it starts empty or as a wrapped session whose
bytes meet `start`, and a run of events leads to it. -/
def Reachable [Fact F] (start : HAKieSerializedSession F → Prop) (s : HAKieSerializedSession F) :
    Prop :=
  ∃ r₀ events r, start r₀.session ∧ (lts E).exec r₀ events = some r ∧ r.session = s

end Replica

namespace HAKieSerializedSession

variable {E : KieEngine F} [Fact F]

/-- A property that no write of a replay or of an upgrade breaks. -/
structure Lasting (E : KieEngine F) (P : HAKieSerializedSession F → Prop) : Prop where
  /-- It does not speak of the buffer or of the counter. -/
  counters : ∀ s size buffer, P s → P { s with size := size, buffer := buffer }
  /-- It does not depend on the version. -/
  version : ∀ s v, P s → P { s with version := v }
  /-- It holds with the bytes of any marshalled session. -/
  session : ∀ s (rm : RulesManager) c (k : KieSession E) bytes,
    rm.serialize E c k = .ok bytes → P s → P { s with session := some bytes }

/-- A property that no write of the class breaks. -/
structure Stable (E : KieEngine F) (P : HAKieSerializedSession F → Prop) : Prop extends
    Lasting E P where
  /-- It does not speak of a pending snapshot. -/
  pending : ∀ s saving latch, P s → P { s with saving := saving, latch := latch }

section Lasting

variable {P : HAKieSerializedSession F → Prop} (hP : Lasting E P) {rm : RulesManager}
include hP

theorem Lasting.keeps_replayLoop (facts : List F) :
    ∀ session : KieSession E, Keeps P (replayLoop session facts) := by
  induction facts with
  | nil => exact fun session => .pure _
  | cons fact facts ih =>
    intro session
    refine Keeps.bind (.modifyThis fun s hs => hP.counters s _ _ hs) fun _ _ _ _ => ?_
    refine Keeps.bind (.onLocal _ _) fun _ _ _ _ => ?_
    exact Keeps.bind (.onLocal _ _) fun _ _ _ _ => ih _

theorem Lasting.keeps_replayFacts (session : KieSession E) : Keeps P (replayFacts rm session) := by
  refine Keeps.this_bind fun s _ => ?_
  refine Keeps.bind ?_ fun _ _ _ _ => .pure _
  cases s.buffer.isEmpty with
  | true => exact .pure _
  | false =>
    refine Keeps.this_bind fun s _ => ?_
    refine Keeps.bind (hP.keeps_replayLoop _ _) fun _ _ _ _ => ?_
    refine Keeps.bind (.modifyThis fun s hs => hP.counters s _ _ hs) fun _ _ _ _ => ?_
    exact .onLocal _ _

theorem Lasting.keeps_buildSession : Keeps P (buildSession (E := E) rm) := by
  refine Keeps.this_bind fun s _ => ?_
  refine Keeps.bind (.lift _) fun _ _ _ _ => ?_
  exact Keeps.bind (.lift _) fun _ _ _ _ => hP.keeps_replayFacts _

theorem Lasting.keeps_rebuildSessionAndUpgrade : Keeps P (rebuildSessionAndUpgrade (E := E) rm) := by
  refine Keeps.this_bind fun s _ => ?_
  refine Keeps.bind (.lift _) fun _ _ _ _ => ?_
  refine Keeps.bind (.lift _) fun _ _ _ _ => ?_
  refine Keeps.bind (hP.keeps_replayFacts _) fun _ _ _ _ => ?_
  refine Keeps.bind (.lift _) fun _ _ _ _ => ?_
  refine Keeps.bind (.lift _) fun _ _ _ _ => ?_
  refine Keeps.lift_bind fun bytes hbytes => ?_
  refine Keeps.bind (.modifyThis fun s hs => hP.session s _ _ _ _ hbytes hs) fun _ _ _ _ => ?_
  exact Keeps.bind (.lift _) fun _ _ _ _ => .modifyThis fun s hs => hP.version s _ hs

theorem Lasting.keeps_upgradeIfNeeded : Keeps P (upgradeIfNeeded (E := E) rm) := by
  refine Keeps.this_bind fun s _ => ?_
  exact Keeps.bind (.lift _) fun _ _ _ _ => .onlyIf _ hP.keeps_rebuildSessionAndUpgrade

theorem Lasting.keeps_snapshotBody : Keeps P (snapshotBody (E := E) rm) := by
  refine Keeps.bind hP.keeps_upgradeIfNeeded fun _ _ _ _ => ?_
  refine Keeps.bind hP.keeps_buildSession fun _ _ _ _ => ?_
  refine Keeps.bind (.lift _) fun _ _ _ _ => ?_
  exact Keeps.lift_bind fun bytes hbytes =>
    .modifyThis fun s hs => hP.session s _ _ _ _ hbytes hs

end Lasting

/-- A rebuild that finds no snapshot pending leaves none pending. -/
theorem keeps_notSaving {rm : RulesManager} :
    Keeps (fun s => s.saving = false) (rebuild (E := E) rm) := by
  have hlasting : Lasting E (F := F) fun s => s.saving = false :=
    ⟨fun _ _ _ h => h, fun _ _ h => h, fun _ _ _ _ _ _ h => h⟩
  intro fr hs
  rw [rebuild, bind_of_ok (waitForSnapshotToComplete_of_not_saving hs)]
  refine Keeps.bind hlasting.keeps_upgradeIfNeeded (fun _ _ _ _ => ?_) fr hs
  exact Keeps.bind hlasting.keeps_buildSession fun _ _ _ _ => .pure _

section Stable

variable {P : HAKieSerializedSession F → Prop} (hP : Stable E P) {rm : RulesManager}
include hP

omit [Fact F] in
theorem Stable.keeps_createSnapshot :
    Keeps P (createSnapshot : Call E (HAKieSerializedSession F) Unit) := by
  refine Keeps.this_bind fun s _ => .onlyIf _ (.modifyThis fun s hs => ?_)
  exact hP.pending s _ _ hs

theorem Stable.keeps_add (f : F) : Keeps P (add (E := E) rm f) := by
  refine Keeps.bind hP.keeps_upgradeIfNeeded fun _ _ _ _ => ?_
  refine Keeps.bind (.modifyThis fun s hs => hP.counters s _ _ hs) fun _ _ _ _ => ?_
  exact Keeps.this_bind fun s _ => .onlyIf _ hP.keeps_createSnapshot

theorem Stable.keeps_snapshotTask : Keeps P (snapshotTask (E := E) rm) :=
  Keeps.tryCatchFinally hP.keeps_snapshotBody fun s hs => hP.pending s _ _ hs

theorem Stable.keeps_rebuild : Keeps P (rebuild (E := E) rm) := by
  refine Keeps.bind ?_ fun _ _ _ _ => ?_
  · exact Keeps.this_bind fun s _ => .onlyIf _ hP.keeps_snapshotTask
  · refine Keeps.bind hP.keeps_upgradeIfNeeded fun _ _ _ _ => ?_
    exact Keeps.bind hP.keeps_buildSession fun _ _ _ _ => .pure _

/-- What no write of the class breaks holds of every session that a run reaches. -/
theorem Stable.reachable {start : HAKieSerializedSession F → Prop} (hstart : ∀ s, start s → P s)
    {s : HAKieSerializedSession F} (h : Replica.Reachable E start s) : P s := by
  obtain ⟨r₀, events, r, h₀, hexec, rfl⟩ := h
  refine (Replica.lts E).exec_invariant (fun r => P r.session) ?_ (hstart _ h₀) hexec
  intro r a r' hr hstep
  cases a with
  | add f =>
    cases hstep
    exact hP.keeps_add f _ hr
  | createSnapshot =>
    cases hstep
    exact hP.keeps_createSnapshot _ hr
  | snapshot =>
    simp only [Replica.lts] at hstep
    split at hstep
    · cases hstep
      exact hP.keeps_snapshotTask _ hr
    · cases hstep
  | updateToVersion version =>
    simp only [Replica.lts] at hstep
    split at hstep <;> cases hstep <;> exact hr

end Stable

/-- A session as a constructor makes it: empty, or with the bytes of a marshalled session. -/
def Constructed (E : KieEngine F) (s : HAKieSerializedSession F) : Prop :=
  (∃ rm, new rm = .ok s) ∨
    ∃ (rm : RulesManager) (c : KieContainer) (k : KieSession E) (version : JString)
      (bytes : JBytes), rm.serialize E c k = .ok bytes ∧ s = ofBytes version bytes

/-- The bytes of the session, if it has any, are not empty. -/
def BytesNonempty (s : HAKieSerializedSession F) : Prop :=
  ∀ bytes, s.session = some bytes → bytes.val ≠ []

section BytesNonempty

omit [Fact F]
variable (hmarshall : ∀ r s b, E.marshall r s = .ok b → b.val ≠ [])
include hmarshall

theorem serialize_ne_nil {rm : RulesManager} {c : KieContainer} {k : KieSession E} {bytes : JBytes}
    (h : rm.serialize E c k = .ok bytes) : bytes.val ≠ [] := by
  simp only [RulesManager.serialize, except_bind_eq_ok] at h
  obtain ⟨-, -, h⟩ := h
  exact hmarshall _ _ _ h

/-- No write of the class breaks that the bytes are not empty. -/
theorem stable_bytesNonempty : Stable E (BytesNonempty (F := F)) := by
  refine ⟨⟨fun s _ _ hs => hs, fun s _ hs => hs, ?_⟩, fun s _ _ hs => hs⟩
  intro s rm c k bytes hbytes _ bytes' h'
  cases h'
  exact serialize_ne_nil hmarshall hbytes

theorem Constructed.bytesNonempty {s : HAKieSerializedSession F} (h : Constructed E s) :
    s.BytesNonempty := by
  rcases h with ⟨rm, hnew⟩ | ⟨rm, c, k, version, bytes, hbytes, rfl⟩
  · simp only [new, except_bind_eq_ok] at hnew
    obtain ⟨r, -, hnew⟩ := hnew
    cases hnew
    exact fun _ h => nomatch h
  · intro bytes' h'
    cases h'
    exact serialize_ne_nil hmarshall hbytes

end BytesNonempty

end HAKieSerializedSession

end Hacep
