import Hacep.Lib.Java

/-!
# The rule engine

The engine is not part of the repository. What the code uses of it is a record of functions over
an unknown state, `KieEngine`: a container resolves a release and moves to another, a session takes
a fact, advances its clock and fires its rules, and a marshaller turns a session into bytes and
back. A `KieSession` is the engine's state together with the channels that are registered with it.

`FactHistory` is what the claims about facts rely on: some function of the engine's state is the
list of the facts that were inserted, in order, and it survives marshalling.
-/

namespace Hacep

open Java

/-- A Maven release id. -/
structure ReleaseId where
  groupId : JString
  artifactId : JString
  version : JString
  deriving DecidableEq, Repr

/-- A `java.time.Instant`, as a number of milliseconds since the epoch. -/
structure Instant where
  millis : ℤ
  deriving DecidableEq, Repr

/-- The milliseconds as a `long`. -/
def Instant.toEpochMilli (i : Instant) : Except Throwable Int64 :=
  if -2^63 ≤ i.millis ∧ i.millis < 2^63 then .ok (Int64.ofInt i.millis)
  else .error .arithmeticException

/-- The interface `Fact`, as far as the rule sessions read it. -/
class Fact (F : Type) where
  /-- When the fact happened; `none` is `null`. -/
  getInstant : F → Option Instant

/-- How a container's update to another release ends. -/
inductive UpdateOutcome
  /-- Without error messages: the container is on the new release. -/
  | completed
  /-- With error messages: the container is on its old release. -/
  | errors
  /-- With an exception: the container is on its old release. -/
  | threw (e : Throwable)
  deriving DecidableEq, Repr

/-- A firing of all rules: the session afterwards, the messages sent to named channels, in order,
and the exception that ended it, if one did. -/
structure Firing (S M : Type) where
  state : S
  sent : List (JString × M)
  thrown : Option Throwable

/-- A Java `byte[]`: its length is an `int`. -/
def JBytes := { bytes : List UInt8 // bytes.length < 2^31 }
  deriving DecidableEq

/-- A `KieContainer`, which is on one release at a time. -/
structure KieContainer where
  releaseId : ReleaseId
  deriving DecidableEq, Repr

/-- What the code uses of the rule engine, over facts `F`. -/
structure KieEngine (F : Type) where
  /-- The state of a session: working memory, agenda, pseudo clock, and the rules it runs. -/
  State : Type
  /-- What rules send to channels. -/
  Message : Type
  /-- The engine's `StringUtils.isEmpty`. -/
  isEmpty : JString → Bool
  /-- It finds the empty string empty, which stands for `null` here. -/
  isEmpty_nil : isEmpty [] = true
  /-- `KieServices.newKieContainer`: whether the release can be resolved. -/
  newKieContainer : ReleaseId → Except Throwable Unit
  /-- `KieContainer.updateToVersion`, from the container's release to another. -/
  updateToVersion : ReleaseId → ReleaseId → UpdateOutcome
  /-- A new session of a container on this release. -/
  newKieSession : ReleaseId → State
  /-- What an update of its container to this release makes of a session. -/
  migrate : ReleaseId → State → State
  /-- `SessionPseudoClock.getCurrentTime`, in milliseconds. -/
  getCurrentTime : State → Int64
  /-- `SessionPseudoClock.advanceTime`, in milliseconds. -/
  advanceTime : Int64 → State → State
  /-- `KieSession.insert`: the session afterwards, and the exception if one was thrown. -/
  insert : F → State → State × Option Throwable
  /-- `KieSession.fireAllRules`. -/
  fireAllRules : State → Firing State Message
  /-- `Marshaller.marshall` of a container on this release. -/
  marshall : ReleaseId → State → Except Throwable JBytes
  /-- `Marshaller.unmarshall` of a container on this release. -/
  unmarshall : ReleaseId → JBytes → Except Throwable State

/-- A channel object, as `getChannels` or as `getReplayChannels` hands it out. -/
inductive Channel
  | real (object : ℕ)
  | replay (object : ℕ)
  deriving DecidableEq, Repr

/-- A message delivered to a channel that was registered under a name. -/
structure Delivery (M : Type) where
  name : JString
  channel : Channel
  message : M

variable {F : Type}

/-- A session of the engine, with its registered channels. -/
structure KieSession (E : KieEngine F) where
  state : E.State
  channels : JString → Option Channel := fun _ => none

/-- A call on an object with fields `σ` that runs rules of the engine. -/
abbrev Call (E : KieEngine F) (σ α : Type) := Method (Delivery E.Message) σ α

variable {E : KieEngine F}

/-- `KieSession.registerChannel`: the last channel registered under a name is the one in use. -/
def KieSession.registerChannel (s : KieSession E) (name : JString) (channel : Channel) :
    KieSession E :=
  { s with channels := fun n => if n = name then some channel else s.channels n }

/-- `KieSession.insert`. -/
def KieSession.insert (fact : F) : Call E (KieSession E) Unit := fun fr =>
  match E.insert fact fr.this.state with
  | (state, none) => .ok () ⟨⟨state, fr.this.channels⟩, fr.out⟩
  | (state, some e) => .error e ⟨⟨state, fr.this.channels⟩, fr.out⟩

/-- What reaches a channel of the messages sent; a name without a channel reaches none. -/
def KieSession.deliveries (s : KieSession E) (sent : List (JString × E.Message)) :
    List (Delivery E.Message) :=
  sent.filterMap fun (name, message) => (s.channels name).map (⟨name, ·, message⟩)

/-- `KieSession.fireAllRules`: the messages sent before an exception are delivered too. -/
def KieSession.fireAllRules : Call E (KieSession E) Unit := fun fr =>
  match E.fireAllRules fr.this.state with
  | ⟨state, sent, none⟩ =>
    .ok () ⟨⟨state, fr.this.channels⟩, fr.out ++ fr.this.deliveries sent⟩
  | ⟨state, sent, some e⟩ =>
    .error e ⟨⟨state, fr.this.channels⟩, fr.out ++ fr.this.deliveries sent⟩

/-- `KieSessionUtils.advanceClock`: sets the session's clock to the fact's instant, backwards too.
-/
def KieSessionUtils.advanceClock [Fact F] (fact : F) : Call E (KieSession E) Unit := do
  let instant ← lift (match Fact.getInstant fact with
    | some instant => .ok instant
    | none => .error .nullPointerException)
  let gts ← lift instant.toEpochMilli
  modifyThis fun s => ⟨E.advanceTime (gts - E.getCurrentTime s.state) s.state, s.channels⟩

/-- The engine's states remember the facts inserted into them, in order, and their bytes do. -/
structure FactHistory (E : KieEngine F) where
  /-- The facts inserted into a session, in order. -/
  history : E.State → List F
  /-- The facts inside the bytes of a session, in order. -/
  inside : JBytes → List F
  /-- A new session has none. -/
  newKieSession : ∀ r, history (E.newKieSession r) = []
  /-- A container update keeps them. -/
  migrate : ∀ r s, history (E.migrate r s) = history s
  /-- Advancing the clock keeps them. -/
  advanceTime : ∀ d s, history (E.advanceTime d s) = history s
  /-- An insertion that returns adds the fact at the end. -/
  insert : ∀ f s, (E.insert f s).2 = none → history (E.insert f s).1 = history s ++ [f]
  /-- Firing keeps them. -/
  fireAllRules : ∀ s, history (E.fireAllRules s).state = history s
  /-- Marshalling keeps them. -/
  marshall : ∀ r s b, E.marshall r s = .ok b → inside b = history s
  /-- Reading a marshalled session back keeps them. -/
  unmarshall : ∀ r b s, E.unmarshall r b = .ok s → history s = inside b

/-! ## Calls on a session -/

section Spec

variable {s s' : KieSession E} {out out' : List (Delivery E.Message)} {f : F} {e : Throwable}

/-- The clock advance changes nothing but the clock. -/
theorem KieSessionUtils.advanceClock_ok [Fact F]
    (h : KieSessionUtils.advanceClock f ⟨s, out⟩ = .ok () ⟨s', out'⟩) :
    (∃ d, s' = ⟨E.advanceTime d s.state, s.channels⟩) ∧ out' = out := by
  unfold KieSessionUtils.advanceClock at h
  simp only [bind_eq_ok, lift_eq_ok, modifyThis_run] at h
  obtain ⟨i, _, ⟨-, rfl⟩, gts, _, ⟨-, rfl⟩, h⟩ := h
  cases h
  exact ⟨⟨_, rfl⟩, rfl⟩

/-- A clock advance that throws changes nothing. -/
theorem KieSessionUtils.advanceClock_error [Fact F]
    (h : KieSessionUtils.advanceClock f ⟨s, out⟩ = .error e ⟨s', out'⟩) : s' = s ∧ out' = out := by
  unfold KieSessionUtils.advanceClock at h
  simp only [bind_eq_error, lift_eq_error, lift_eq_ok, modifyThis_run] at h
  grind

/-- An insertion that returns is the engine's. -/
theorem KieSession.insert_ok (h : KieSession.insert f ⟨s, out⟩ = .ok () ⟨s', out'⟩) :
    (E.insert f s.state).2 = none ∧ s' = ⟨(E.insert f s.state).1, s.channels⟩ ∧ out' = out := by
  unfold KieSession.insert at h
  split at h
  · cases h
    simp_all
  · cases h

/-- An insertion that throws is the engine's: what it leaves is what the engine has left. -/
theorem KieSession.insert_error (h : KieSession.insert f ⟨s, out⟩ = .error e ⟨s', out'⟩) :
    (E.insert f s.state).2 ≠ none ∧ s' = ⟨(E.insert f s.state).1, s.channels⟩ ∧ out' = out := by
  unfold KieSession.insert at h
  split at h
  · cases h
  · cases h
    simp_all

/-- A firing that returns leaves the engine's state and delivers what was sent. -/
theorem KieSession.fireAllRules_ok (h : KieSession.fireAllRules ⟨s, out⟩ = .ok () ⟨s', out'⟩) :
    s' = ⟨(E.fireAllRules s.state).state, s.channels⟩ ∧
      out' = out ++ s.deliveries (E.fireAllRules s.state).sent := by
  unfold KieSession.fireAllRules at h
  split at h
  · cases h
    simp_all
  · cases h

/-- A firing that throws leaves the engine's state and delivers what was sent before. -/
theorem KieSession.fireAllRules_error
    (h : KieSession.fireAllRules ⟨s, out⟩ = .error e ⟨s', out'⟩) :
    s' = ⟨(E.fireAllRules s.state).state, s.channels⟩ ∧
      out' = out ++ s.deliveries (E.fireAllRules s.state).sent := by
  unfold KieSession.fireAllRules at h
  split at h
  · cases h
  · cases h
    simp_all

end Spec

end Hacep
