import Hacep.RulesManager

/-!
# Live sessions

`HAKieSession` holds a running session of the engine. `insert` opens the session on the first fact,
remembers the fact as the last one, sets the clock to it, inserts it and fires the rules; `delta` is
what the grid then ships to the other owners, and `commit` forgets the last fact.

The call works in place: an exception keeps what was written before it. `insert_ok` says what is
left of the fact history where it returns: the fact has been added at its end by `takeFact`, the
part of `insert` up to the engine's insertion.
-/

namespace Hacep

open Java

variable {F : Type}

/-- `HAKieSession`. `none` is `null`. -/
structure HAKieSession (E : KieEngine F) where
  lastFact : Option F := none
  session : Option (KieSession E) := none

/-- What a put ships to the other owners: `HAKieSessionDeltaEmpty` or `HAKieSessionDeltaFact`. -/
inductive Delta (F : Type)
  | empty
  | fact (fact : F)
  deriving DecidableEq, Repr

namespace HAKieSession

variable {E : KieEngine F}

/-- A call on the engine's session that the object holds. -/
def onSession (m : Call E (KieSession E) Unit) : Call E (HAKieSession E) Unit := fun fr =>
  match fr.this.session with
  | none => .error .nullPointerException fr
  | some s =>
    match m ⟨s, fr.out⟩ with
    | .ok _ ⟨s', out⟩ => .ok () ⟨⟨fr.this.lastFact, some s'⟩, out⟩
    | .error e ⟨s', out⟩ => .error e ⟨⟨fr.this.lastFact, some s'⟩, out⟩

/-- The start of `insert`: a session is made, with its channels, where there is none. -/
def openSession (rm : RulesManager) : Call E (HAKieSession E) Unit := do
  let h ← this
  onlyIf h.session.isNone do
    let container ← lift rm.getKieContainer
    let session ← lift (rm.newKieSession E container)
    modifyThis fun h => { h with session := some (rm.registerChannels session) }

/-- `insert`, up to the engine's insertion of the fact. -/
def takeFact [Fact F] (rm : RulesManager) (fact : F) : Call E (HAKieSession E) Unit := do
  openSession rm
  modifyThis fun h => { h with lastFact := some fact }
  onSession (KieSessionUtils.advanceClock fact)
  onSession (KieSession.insert fact)

/-- `insert`. -/
def insert [Fact F] (rm : RulesManager) (fact : F) : Call E (HAKieSession E) Unit := do
  takeFact rm fact
  onSession KieSession.fireAllRules

/-- `delta`. -/
def delta (h : HAKieSession E) : Delta F :=
  match h.lastFact with
  | some fact => .fact fact
  | none => .empty

/-- `commit`. -/
def commit (h : HAKieSession E) : HAKieSession E := { h with lastFact := none }

/-- What an update of the node's container to another release makes of the object. -/
def migrate (r : ReleaseId) (h : HAKieSession E) : HAKieSession E :=
  { h with session := h.session.map fun s => { s with state := E.migrate r s.state } }

/-- The facts inserted in a live session, in order. -/
def history (H : FactHistory E) (h : HAKieSession E) : List F :=
  match h.session with
  | none => []
  | some s => H.history s.state

variable {H : FactHistory E} {rm : RulesManager} {f : F} {e : Throwable}
  {fr fr' : Frame (Delivery E.Message) (HAKieSession E)}

theorem history_of_session {h : HAKieSession E} {s : KieSession E} (hs : h.session = some s) :
    h.history H = H.history s.state := by
  simp only [history, hs]

@[simp]
theorem history_commit (h : HAKieSession E) : h.commit.history H = h.history H := rfl

@[simp]
theorem history_migrate (r : ReleaseId) (h : HAKieSession E) :
    (h.migrate r).history H = h.history H := by
  unfold history migrate
  cases h.session with
  | none => rfl
  | some s => exact H.migrate r s.state

/-- A call on the held session needs one, and leaves one, whether it returns or throws. -/
theorem onSession_eq_ok {m : Call E (KieSession E) Unit} (h : onSession m fr = .ok () fr') :
    ∃ s s', fr.this.session = some s ∧ m ⟨s, fr.out⟩ = .ok () ⟨s', fr'.out⟩ ∧
      fr'.this = ⟨fr.this.lastFact, some s'⟩ := by
  unfold onSession at h
  split at h
  · cases h
  · split at h
    · cases h
      exact ⟨_, _, ‹_›, ‹_›, rfl⟩
    · cases h

theorem onSession_eq_error {m : Call E (KieSession E) Unit} {s : KieSession E}
    (hs : fr.this.session = some s) (h : onSession m fr = .error e fr') :
    ∃ s', m ⟨s, fr.out⟩ = .error e ⟨s', fr'.out⟩ ∧ fr'.this = ⟨fr.this.lastFact, some s'⟩ := by
  simp only [onSession, hs] at h
  split at h
  · cases h
  · cases h
    exact ⟨_, ‹_›, rfl⟩

/-- Opening the session keeps the fact history, and an opening that returns leaves a session. -/
theorem openSession_ok (h : openSession rm fr = .ok () fr') :
    fr'.this.lastFact = fr.this.lastFact ∧ fr'.this.session.isSome ∧
      fr'.this.history H = fr.this.history H := by
  simp only [openSession, bind_eq_ok, this_run] at h
  obtain ⟨_, _, ⟨rfl, rfl⟩, h⟩ := h
  cases hs : fr.this.session with
  | some s =>
    rw [hs] at h
    simp only [Option.isNone_some, onlyIf_false, pure_run] at h
    cases h
    exact ⟨rfl, by simp [hs], rfl⟩
  | none =>
    rw [hs] at h
    simp only [Option.isNone_none, onlyIf_true, bind_eq_ok, lift_eq_ok, modifyThis_run] at h
    obtain ⟨c, _, ⟨-, rfl⟩, s, _, ⟨hnew, rfl⟩, h⟩ := h
    cases h
    refine ⟨rfl, rfl, ?_⟩
    have hnil := (RulesManager.newKieSession_ok H hnew).1
    rw [history_of_session rfl, RulesManager.registerChannels_state, hnil, history, hs]

/-- An opening that throws changes nothing. -/
theorem openSession_error (h : openSession rm fr = .error e fr') : fr' = fr := by
  simp only [openSession, bind_eq_error, this_run] at h
  rcases h with h | ⟨_, _, h0, h⟩
  · cases h
  · cases h0
    cases hs : fr.this.session with
    | some s =>
      rw [hs] at h
      simp only [Option.isNone_some, onlyIf_false, pure_run] at h
      cases h
    | none =>
      rw [hs] at h
      simp only [Option.isNone_none, onlyIf_true, bind_eq_error, lift_eq_error, lift_eq_ok,
        modifyThis_run] at h
      grind

/-- Taking a fact adds it at the end of the history and leaves it as the last fact. -/
theorem takeFact_ok [Fact F] (h : takeFact rm f fr = .ok () fr') :
    fr'.this.history H = fr.this.history H ++ [f] ∧ fr'.this.lastFact = some f ∧
      fr'.this.session.isSome := by
  simp only [takeFact, bind_eq_ok, modifyThis_run] at h
  obtain ⟨_, fr₁, hopen, _, fr₂, h₂, _, fr₃, hadv, hins⟩ := h
  cases h₂
  obtain ⟨s₁, s₂, hs₁, hadv, h₃⟩ := onSession_eq_ok hadv
  obtain ⟨s₃, s₄, hs₃, hins, h₄⟩ := onSession_eq_ok hins
  obtain ⟨⟨d, rfl⟩, -⟩ := KieSessionUtils.advanceClock_ok hadv
  obtain ⟨hnone, rfl, -⟩ := KieSession.insert_ok hins
  rw [h₃, Option.some.injEq] at hs₃
  subst hs₃
  have hstart : H.history s₁.state = fr.this.history H := by
    rw [← (openSession_ok (H := H) hopen).2.2]
    exact (history_of_session hs₁).symm
  rw [h₄, h₃]
  refine ⟨?_, rfl, rfl⟩
  rw [history_of_session rfl, H.insert _ _ hnone, H.advanceTime, hstart]

/-- An insertion that returns adds the fact at the end of the history and leaves it as the last
fact. -/
theorem insert_ok [Fact F] (h : insert rm f fr = .ok () fr') :
    fr'.this.history H = fr.this.history H ++ [f] ∧ fr'.this.lastFact = some f := by
  simp only [insert, bind_eq_ok] at h
  obtain ⟨_, fr₁, htake, hfire⟩ := h
  obtain ⟨hhist, hlast, -⟩ := takeFact_ok (H := H) htake
  obtain ⟨s, s', hs, hfire, h'⟩ := onSession_eq_ok hfire
  obtain ⟨rfl, -⟩ := KieSession.fireAllRules_ok hfire
  rw [history_of_session hs] at hhist
  rw [h']
  exact ⟨by rw [history_of_session rfl, H.fireAllRules, hhist], hlast⟩

end HAKieSession

end Hacep
