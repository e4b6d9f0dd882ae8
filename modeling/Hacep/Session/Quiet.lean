import Hacep.Session.Channels
import Hacep.Session.Delta

/-!
# Calls that reach no real channel

A replay inserts facts into a session that has no channel but the replay channels, and fires it
before the real channels replace these. So no call on a serialized session, and no merge, delivers
anything to a real channel, whether it returns or throws; where a snapshot or an upgrade is due they
replay facts too, and deliver as little.

`Channels.lean` follows the channels from statement to statement, with the calls on a session
interleaved; here a call runs from its beginning to its end.
-/

namespace Hacep

open Java

variable {F : Type} [Fact F] {E : KieEngine F} {α σ : Type}

/-- A call that delivers nothing to a real channel. -/
def Quiet (m : Call E σ α) : Prop := Withholds (fun d => d.channel.isReal) m

/-! ## Calls on a session of the engine -/

omit [Fact F] in
theorem KieSession.quiet_insert (fact : F) : Quiet (KieSession.insert fact : Call E _ Unit) := by
  rintro ⟨s, out⟩
  cases h : KieSession.insert fact ⟨s, out⟩ with
  | ok _ fr =>
    obtain ⟨-, -, hout⟩ := KieSession.insert_ok h
    exact congrArg _ hout
  | error e fr =>
    obtain ⟨-, -, hout⟩ := KieSession.insert_error h
    exact congrArg _ hout

theorem KieSessionUtils.quiet_advanceClock (fact : F) :
    Quiet (KieSessionUtils.advanceClock fact : Call E _ Unit) := by
  rintro ⟨s, out⟩
  cases h : KieSessionUtils.advanceClock fact ⟨s, out⟩ with
  | ok _ fr => exact congrArg _ (KieSessionUtils.advanceClock_ok h).2
  | error e fr => exact congrArg _ (KieSessionUtils.advanceClock_error h).2

omit [Fact F] in
/-- A session with the replay channels fires into them. -/
theorem KieSession.quiet_fireAllRules {c : RulesConfiguration} {session : KieSession E}
    (h : session.channels = c.silentChannels) :
    Quiet (onLocal session KieSession.fireAllRules : Call E σ (KieSession E)) := by
  have hsilent : ∀ sent, (session.deliveries sent).filter (fun d => d.channel.isReal) = [] := by
    intro sent
    refine List.filter_eq_nil_iff.2 fun d hd => ?_
    rw [KieSession.deliveries_of_silent h sent d hd]
    exact Bool.false_ne_true
  rintro ⟨s, out⟩
  unfold onLocal
  cases hfire : KieSession.fireAllRules ⟨session, out⟩ with
  | ok _ fr =>
    obtain ⟨-, hout⟩ := KieSession.fireAllRules_ok hfire
    simp only [finalFrame, hout, List.filter_append, hsilent, List.append_nil]
  | error e fr =>
    obtain ⟨-, hout⟩ := KieSession.fireAllRules_error hfire
    simp only [finalFrame, hout, List.filter_append, hsilent, List.append_nil]

/-! ## Calls on a serialized session -/

namespace HAKieSerializedSession

variable {rm : RulesManager} {session session' : KieSession E}
  {fr fr' : Frame (Delivery E.Message) (HAKieSerializedSession F)}

theorem quiet_replayLoop (facts : List F) :
    ∀ session : KieSession E, Quiet (replayLoop session facts) := by
  induction facts with
  | nil => exact fun _ => .pure _
  | cons fact facts ih =>
    intro session
    refine (Withholds.modifyThis _).bind fun _ _ _ _ => ?_
    refine ((KieSessionUtils.quiet_advanceClock fact).onLocal _).bind fun _ _ _ _ => ?_
    exact ((KieSession.quiet_insert fact).onLocal _).bind fun _ _ _ _ => ih _

/-- The loop of a replay leaves the channels. -/
theorem replayLoop_channels {facts : List F} (h : replayLoop session facts fr = .ok session' fr') :
    session'.channels = session.channels := by
  induction facts generalizing session fr with
  | nil =>
    cases h
    rfl
  | cons fact facts ih =>
    simp only [replayLoop, bind_eq_ok, modifyThis_run, onLocal_eq_ok] at h
    obtain ⟨_, fr₁, h₁, ⟨s₂, c₂⟩, fr₂, ⟨hadvance, -⟩, ⟨s₃, c₃⟩, fr₃, ⟨hinsert, -⟩, hrest⟩ := h
    obtain ⟨⟨d, hadvanced⟩, -⟩ := KieSessionUtils.advanceClock_ok hadvance
    obtain ⟨-, hinserted, -⟩ := KieSession.insert_ok hinsert
    rw [ih hrest, hinserted, hadvanced]

/-- A replay into a session without channels is quiet. -/
theorem quiet_replayFacts (hnone : session.channels = fun _ => none) :
    Quiet (replayFacts rm session) := by
  refine Withholds.this_bind fun s => Withholds.bind ?_ fun _ _ _ _ => .pure _
  cases s.buffer.isEmpty with
  | true => exact .pure _
  | false =>
    refine Withholds.this_bind fun s => ?_
    refine Withholds.bind (quiet_replayLoop _ _) fun session' fr fr' hloop => ?_
    have hchannels := replayLoop_channels hloop
    rw [rm.registerReplayChannels_of_none hnone] at hchannels
    exact (Withholds.modifyThis _).bind fun _ _ _ _ => KieSession.quiet_fireAllRules hchannels

theorem quiet_buildSession : Quiet (buildSession (E := E) (F := F) rm) :=
  Withholds.this_bind fun _ => Withholds.lift_bind fun _ _ => Withholds.lift_bind fun _ h =>
    quiet_replayFacts (RulesManager.deserializeOrCreate_channels h)

theorem quiet_upgradeIfNeeded : Quiet (upgradeIfNeeded (E := E) (F := F) rm) := by
  refine Withholds.this_bind fun s => Withholds.lift_bind fun needed _ => .onlyIf needed ?_
  refine Withholds.this_bind fun s => Withholds.lift_bind fun _ _ => ?_
  refine Withholds.lift_bind fun _ hread => ?_
  refine Withholds.bind
    (quiet_replayFacts (RulesManager.deserializeOrCreate_channels hread)) fun _ _ _ _ => ?_
  refine Withholds.lift_bind fun _ _ => Withholds.lift_bind fun _ _ => ?_
  refine Withholds.lift_bind fun _ _ => (Withholds.modifyThis _).bind fun _ _ _ _ => ?_
  exact Withholds.lift_bind fun _ _ => .modifyThis _

theorem quiet_add (f : F) : Quiet (add (E := E) rm f) := by
  refine Withholds.bind quiet_upgradeIfNeeded fun _ _ _ _ => ?_
  refine (Withholds.modifyThis _).bind fun _ _ _ _ => Withholds.this_bind fun s => .onlyIf _ ?_
  exact Withholds.this_bind fun s => .onlyIf _ (.modifyThis _)

theorem quiet_snapshotBody : Quiet (snapshotBody (E := E) (F := F) rm) := by
  refine Withholds.bind quiet_upgradeIfNeeded fun _ _ _ _ => ?_
  refine Withholds.bind quiet_buildSession fun _ _ _ _ => ?_
  exact Withholds.lift_bind fun _ _ => Withholds.lift_bind fun _ _ => .modifyThis _

/-- A rebuild is quiet, also where it waits for a snapshot, and where the snapshot fails. -/
theorem quiet_rebuild : Quiet (rebuild (E := E) (F := F) rm) := by
  refine Withholds.bind ?_ fun _ _ _ _ => ?_
  · exact Withholds.this_bind fun s =>
      .onlyIf _ (Withholds.tryCatchFinally quiet_snapshotBody _)
  · refine Withholds.bind quiet_upgradeIfNeeded fun _ _ _ _ => ?_
    exact Withholds.bind quiet_buildSession fun _ _ _ _ => .pure _

end HAKieSerializedSession

/-- A merge is quiet. -/
theorem Delta.quiet_merge {rm : RulesManager} (delta : Delta F) :
    Quiet (delta.merge rm : Call E (Entry E) Unit) := by
  have hadd : ∀ f, Quiet (HAKieSerializedSession.add (E := E) rm f) :=
    HAKieSerializedSession.quiet_add
  refine Withholds.this_bind fun d => ?_
  match delta, d with
  | .empty, some _ => exact .pure _
  | .empty, none => exact Withholds.lift_bind fun _ _ => .modifyThis _
  | .fact f, none =>
    refine Withholds.lift_bind fun _ _ => ?_
    exact ((hadd f).onLocal _).bind fun _ _ _ _ => .modifyThis _
  | .fact f, some (.live h) =>
    refine Withholds.lift_bind fun _ _ => ?_
    exact ((hadd f).onLocal _).bind fun _ _ _ _ => .modifyThis _
  | .fact f, some (.serialized s) =>
    intro fr
    have hout := hadd f ⟨s, fr.out⟩
    simp only [Entry.onSerialized]
    cases h : HAKieSerializedSession.add (E := E) rm f ⟨s, fr.out⟩ with
    | ok a fr' =>
      rw [h] at hout
      exact hout
    | error e fr' =>
      rw [h] at hout
      exact hout

end Hacep
