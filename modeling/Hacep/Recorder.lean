import Hacep.Lib.Wire
import Hacep.RulesManager

/-!
# A recording engine

An engine that can be run: a session keeps the readings inserted into it, and its one rule counts
the firings that saw exactly one reading, so that firing after each of two readings differs from
firing once after both. Every firing sends the clock to the channel `audit`. A reading of 255 has
no instant, inserting 254 throws, and firing throws while 253 is the last reading. A session's bytes
are its clock, its count and its readings.
-/

namespace Hacep

open Java Wire

/-- A fact of the recording engine. -/
structure Reading where
  value : UInt8
  deriving DecidableEq, Repr

instance : Fact Reading where
  getInstant f := if f.value = 255 then none else some ⟨f.value.toNat⟩

namespace Recorder

/-- A session of the recording engine. -/
structure State where
  clock : Int64 := 0
  alone : UInt8 := 0
  readings : List Reading := []
  deriving DecidableEq

/-- The bytes of a session. -/
def write (s : State) : List UInt8 :=
  writeLong s.clock ++ (writeByte s.alone.toNat ++ s.readings.map Reading.value)

/-- A session from its bytes. -/
def read : Reader State := do
  let clock ← readLong
  let alone ← readUnsignedByte
  fun bytes => some (⟨clock, UInt8.ofNat alone, bytes.map Reading.mk⟩, [])

/-- A session that fits an array. -/
def marshall (s : State) : Except Throwable JBytes :=
  if h : (write s).length < 2 ^ 31 then .ok ⟨write s, h⟩ else .error (.external 0)

/-- A session from an array. -/
def unmarshall (bytes : JBytes) : Except Throwable State :=
  match read.run bytes.val with
  | some (s, _) => .ok s
  | none => .error (.external 1)

/-- A firing of the one rule. -/
def fireAllRules (s : State) : Firing State Int64 where
  state := { s with alone := if s.readings.length = 1 then s.alone + 1 else s.alone }
  sent := [(jstr "audit", s.clock)]
  thrown := if s.readings.getLast? = some ⟨253⟩ then some (.external 3) else none

/-- The bytes of a session read back. -/
theorem read_write (s : State) : read.run (write s) = some (s, []) := by
  unfold read write
  rw [StateT.run_bind, takes_readLong, Option.bind_eq_bind, Option.bind_some, StateT.run_bind,
    takes_readUnsignedByte]
  have hid : Reading.mk ∘ Reading.value = id := rfl
  simp [StateT.run, hid]

/-- Marshalled bytes are the session's, and never empty. -/
theorem marshall_ok {s : State} {bytes : JBytes} (h : marshall s = .ok bytes) :
    bytes.val = write s ∧ bytes.val ≠ [] := by
  unfold marshall at h
  split at h
  · cases h
    exact ⟨rfl, by simp [write, writeByte]⟩
  · cases h

/-- Marshalling round-trips the session. -/
theorem unmarshall_of_marshall {s : State} {bytes : JBytes} (h : marshall s = .ok bytes) :
    unmarshall bytes = .ok s := by
  rw [unmarshall, (marshall_ok h).1, read_write]

end Recorder

/-- The recording engine, with what a container's update does. -/
def recorder (update : ReleaseId → ReleaseId → UpdateOutcome) : KieEngine Reading where
  State := Recorder.State
  Message := Int64
  isEmpty := List.isEmpty
  isEmpty_nil := rfl
  newKieContainer _ := .ok ()
  updateToVersion := update
  newKieSession _ := {}
  migrate _ s := s
  getCurrentTime s := s.clock
  advanceTime d s := { s with clock := s.clock + d }
  insert f s :=
    if f.value = 254 then (s, some (.external 2)) else ({ s with readings := s.readings ++ [f] }, none)
  fireAllRules := Recorder.fireAllRules
  marshall _ := Recorder.marshall
  unmarshall _ := Recorder.unmarshall

/-- The bytes of a session of the recording engine are never empty. -/
theorem recorder_marshall_ne_nil (update : ReleaseId → ReleaseId → UpdateOutcome) :
    ∀ r s b, (recorder update).marshall r s = .ok b → b.val ≠ [] :=
  fun _ _ _ h => (Recorder.marshall_ok h).2

/-- A node of the recording engine that runs a version. -/
def Recorder.manager (version : JString) : RulesManager where
  started := true
  rulesConfiguration :=
    { channels := [(jstr "audit", 0)], replayChannels := [(jstr "audit", 1)], groupId := jstr "g",
      artifactId := jstr "a", version := version }
  kieContainer := some ⟨⟨jstr "g", jstr "a", version⟩⟩
  releaseId := some ⟨jstr "g", jstr "a", version⟩

theorem Recorder.manager_running (version : JString) :
    (Recorder.manager version).Running ⟨jstr "g", jstr "a", version⟩ := ⟨rfl, rfl, rfl⟩

/-- The recording engine remembers its readings. -/
def recorderHistory (update : ReleaseId → ReleaseId → UpdateOutcome) :
    FactHistory (recorder update) where
  history := Recorder.State.readings
  inside bytes :=
    match Recorder.unmarshall bytes with
    | .ok s => s.readings
    | .error _ => []
  newKieSession _ := rfl
  migrate _ _ := rfl
  advanceTime _ _ := rfl
  insert f s h := by
    simp only [recorder] at h ⊢
    split at h <;> simp_all
  fireAllRules _ := rfl
  marshall r s b h := by
    rw [Recorder.unmarshall_of_marshall h]
  unmarshall r b s h := by
    rw [show Recorder.unmarshall b = .ok s from h]

/-- The recording engine whose container updates complete. -/
abbrev Recorder.engine : KieEngine Reading := recorder fun _ _ => .completed

/-- It remembers its readings. -/
abbrev Recorder.history : FactHistory Recorder.engine := recorderHistory fun _ _ => .completed

end Hacep
