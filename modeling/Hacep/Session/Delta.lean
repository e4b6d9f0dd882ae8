import Hacep.Session.HAKieSerializedSession

/-!
# Stored values and deltas

The session cache of an owner holds a live session, a serialized one, or nothing. A put at the
primary owner ships a delta, and `merge` applies it to what another owner holds: the empty delta
makes a serialized session where there is nothing, and a fact is added to a serialized session,
after a live one is wrapped into one.

`merge_ok` is the one fact that agreement of the owners rests on: a merge that returns adds the
delta's facts at the end of what the owner held, in every shape that the stored value can have. A
merge that throws changes nothing but a serialized session (`merge_error`).
-/

namespace Hacep

open Java

variable {F : Type}

/-- `wrapWithSerializedSession`. -/
def HAKieSession.wrapWithSerializedSession {E : KieEngine F} (rm : RulesManager)
    (h : HAKieSession E) : Except Throwable (HAKieSerializedSession F) :=
  match h.session with
  | some session => do
    let r ← rm.getReleaseId
    let container ← rm.getKieContainer
    let bytes ← rm.serialize E container session
    .ok (.ofBytes r.version bytes)
  | none => HAKieSerializedSession.new rm

/-- A value of the session cache. -/
inductive DeltaAware (E : KieEngine F)
  | live (h : HAKieSession E)
  | serialized (s : HAKieSerializedSession F)

/-- The facts of a delta. -/
def Delta.facts : Delta F → List F
  | .empty => []
  | .fact f => [f]

variable {E : KieEngine F}

namespace DeltaAware

/-- The logical fact history of a value. -/
def history (H : FactHistory E) : DeltaAware E → List F
  | .live h => h.history H
  | .serialized s => s.history H

/-- What an update of the node's container to another release makes of a value. -/
def migrate (r : ReleaseId) : DeltaAware E → DeltaAware E
  | .live h => .live (h.migrate r)
  | .serialized s => .serialized s

@[simp]
theorem history_migrate {H : FactHistory E} (r : ReleaseId) (v : DeltaAware E) :
    (v.migrate r).history H = v.history H := by
  cases v with
  | live h => exact HAKieSession.history_migrate r h
  | serialized s => rfl

end DeltaAware

/-- What an owner holds under a key: `none` where the cache has no entry. -/
abbrev Entry (E : KieEngine F) := Option (DeltaAware E)

namespace Entry

/-- The logical fact history of what an owner holds. -/
def history (H : FactHistory E) : Entry E → List F
  | none => []
  | some v => v.history H

/-- A call on the serialized session that the entry holds, in place. -/
def onSerialized {α : Type} (s : HAKieSerializedSession F)
    (m : Call E (HAKieSerializedSession F) α) : Call E (Entry E) α := fun fr =>
  match m ⟨s, fr.out⟩ with
  | .ok a ⟨s', out⟩ => .ok a ⟨some (.serialized s'), out⟩
  | .error e ⟨s', out⟩ => .error e ⟨some (.serialized s'), out⟩

end Entry

section Merge

variable [Fact F]

/-- `HAKieSessionDeltaEmpty.merge` and `HAKieSessionDeltaFact.merge`, and the entry that the result
becomes. A serialized session takes the fact in place; a session that is made here is stored when
the call returns. -/
def Delta.merge (rm : RulesManager) (delta : Delta F) : Call E (Entry E) Unit := do
  let d ← this
  match delta, d with
  | .empty, some _ => pure ()
  | .empty, none =>
    let haSession ← lift (HAKieSerializedSession.new rm)
    modifyThis fun _ => some (.serialized haSession)
  | .fact f, none =>
    let haSession ← lift (HAKieSerializedSession.new rm)
    let haSession ← onLocal haSession (HAKieSerializedSession.add rm f)
    modifyThis fun _ => some (.serialized haSession)
  | .fact f, some (.live h) =>
    let haSession ← lift (h.wrapWithSerializedSession rm)
    let haSession ← onLocal haSession (HAKieSerializedSession.add rm f)
    modifyThis fun _ => some (.serialized haSession)
  | .fact f, some (.serialized s) => Entry.onSerialized s (HAKieSerializedSession.add rm f)

variable {H : FactHistory E} {rm : RulesManager}

omit [Fact F] in
/-- A new serialized session has no facts. -/
theorem HAKieSerializedSession.new_ok {s : HAKieSerializedSession F}
    (h : HAKieSerializedSession.new rm = .ok s) : s.history H = [] := by
  simp only [HAKieSerializedSession.new, bind, Except.bind] at h
  split at h
  · cases h
  · cases h
    rfl

omit [Fact F] in
/-- Wrapping a live session keeps its facts. -/
theorem HAKieSession.wrapWithSerializedSession_ok {h : HAKieSession E}
    {s : HAKieSerializedSession F} (hw : h.wrapWithSerializedSession rm = .ok s) :
    s.history H = h.history H := by
  unfold HAKieSession.wrapWithSerializedSession at hw
  cases hs : h.session with
  | none =>
    rw [hs] at hw
    rw [HAKieSerializedSession.new_ok hw, HAKieSession.history, hs]
  | some session =>
    simp only [hs, except_bind_eq_ok] at hw
    obtain ⟨r, -, container, -, bytes, hbytes, hw⟩ := hw
    cases hw
    rw [HAKieSession.history_of_session hs, ← RulesManager.serialize_ok H hbytes]
    simp [HAKieSerializedSession.history, HAKieSerializedSession.ofBytes, FactHistory.stored]

/-- A merge that returns adds the facts of the delta at the end of the entry's history. -/
theorem Delta.merge_ok {delta : Delta F} {fr fr' : Frame (Delivery E.Message) (Entry E)}
    (h : delta.merge rm fr = .ok () fr') :
    Entry.history H fr'.this = Entry.history H fr.this ++ delta.facts := by
  obtain ⟨d, out⟩ := fr
  rw [Delta.merge, bind_of_ok this_run] at h
  match delta, d with
  | .empty, some _ =>
    cases h
    simp [facts]
  | .empty, none =>
    simp only [bind_eq_ok, lift_eq_ok, modifyThis_run] at h
    obtain ⟨s, _, ⟨hnew, rfl⟩, h⟩ := h
    cases h
    exact HAKieSerializedSession.new_ok hnew
  | .fact f, none =>
    simp only [bind_eq_ok, lift_eq_ok, modifyThis_run, onLocal_eq_ok] at h
    obtain ⟨s, _, ⟨hnew, rfl⟩, s', fr₂, ⟨hadd, -⟩, h⟩ := h
    cases h
    have := HAKieSerializedSession.add_ok (H := H) hadd
    rw [HAKieSerializedSession.new_ok hnew] at this
    exact this
  | .fact f, some (.live h₀) =>
    simp only [bind_eq_ok, lift_eq_ok, modifyThis_run, onLocal_eq_ok] at h
    obtain ⟨s, _, ⟨hwrap, rfl⟩, s', fr₂, ⟨hadd, -⟩, h⟩ := h
    cases h
    have := HAKieSerializedSession.add_ok (H := H) hadd
    rw [HAKieSession.wrapWithSerializedSession_ok hwrap] at this
    exact this
  | .fact f, some (.serialized s) =>
    simp only [Entry.onSerialized] at h
    split at h
    · cases h
      exact HAKieSerializedSession.add_ok (H := H) ‹_›
    · cases h

/-- A merge that throws leaves the entry as it was, unless that is a serialized session. -/
theorem Delta.merge_error {delta : Delta F} {e : Throwable}
    {fr fr' : Frame (Delivery E.Message) (Entry E)}
    (h : delta.merge rm fr = .error e fr') (hd : ∀ s, fr.this ≠ some (.serialized s)) :
    fr'.this = fr.this := by
  obtain ⟨d, out⟩ := fr
  rw [Delta.merge, bind_of_ok this_run] at h
  -- A session that is made here is lost with the exception.
  match delta, d with
  | .empty, some _ => cases h
  | .empty, none =>
    simp only [bind_eq_error, lift_eq_error, lift_eq_ok, modifyThis_run] at h
    obtain h | ⟨s, _, -, h⟩ := h
    · rw [h.2]
    · cases h
  | .fact f, none =>
    simp only [bind_eq_error, lift_eq_error, lift_eq_ok, onLocal_eq_error, onLocal_eq_ok,
      modifyThis_run] at h
    obtain h | ⟨s, fr₁, ⟨-, rfl⟩, h | ⟨s', fr₂, -, h⟩⟩ := h
    · rw [h.2]
    · exact h.2
    · cases h
  | .fact f, some (.live h₀) =>
    simp only [bind_eq_error, lift_eq_error, lift_eq_ok, onLocal_eq_error, onLocal_eq_ok,
      modifyThis_run] at h
    obtain h | ⟨s, fr₁, ⟨-, rfl⟩, h | ⟨s', fr₂, -, h⟩⟩ := h
    · rw [h.2]
    · exact h.2
    · cases h
  | .fact f, some (.serialized s) => exact absurd rfl (hd s)

end Merge

end Hacep
