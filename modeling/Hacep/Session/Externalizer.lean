import Hacep.Lib.Wire
import Hacep.Recorder
import Hacep.Session.Delta
import Hacep.Session.Replica

/-!
# Moving a session to another node

A value of the session cache moves to another node as the bytes of its externalizer. Both formats
are conditional: the version goes with the bytes of a session, and where there are none the reader
takes the version from its own rules manager. So a serialized session without a snapshot comes out
with the reader's version, whatever its own was; `readObject_writeObject` says which session comes
out in every case, and `transfer_keeps_iff` when it is the one that was written.

The copy's counter, latch and saving flag are those of a new object. `rebuild_forget` shows that
`rebuild` does not depend on them, apart from a pending snapshot, which does not move.
-/

namespace Hacep

open Java Wire

variable {F : Type}

/-- How an object stream writes an array of facts, where they fit one, and reads it back. -/
structure FactCodec (F : Type) where
  writeObject : List F → Option JBytes
  readObject : List UInt8 → Option (List F)
  /-- Facts serialize faithfully. -/
  readObject_writeObject : ∀ facts bytes, writeObject facts = some bytes →
    readObject bytes.val = some facts

/-- The readings in an array. -/
def readingCodec : FactCodec Reading where
  writeObject readings :=
    if h : readings.length < 2 ^ 31 then some ⟨readings.map Reading.value, by simpa using h⟩
    else none
  readObject bytes := some (bytes.map Reading.mk)
  readObject_writeObject readings bytes h := by
    split at h
    · cases h
      simp [show Reading.mk ∘ Reading.value = id from rfl]
    · cases h

/-- The length of an array. -/
def JBytes.size (bytes : JBytes) : Int32 := Int32.ofNat bytes.val.length

/-- `new byte[len]`, and a read that fills it. -/
def readArray (len : Int32) : Reader JBytes := do
  let bytes ← read len.toNatClampNeg
  StateT.lift (if h : bytes.length < 2 ^ 31 ∧ 0 ≤ len then some ⟨bytes, h.1⟩ else none)

namespace HASerializedSessionExternalizer

/-- `HASerializedSessionExternalizer.writeObject`. -/
def writeObject (codec : FactCodec F) (object : HAKieSerializedSession F) :
    Option (List UInt8) := do
  let session ← match object.session with
    | some session => do
      let version ← writeUTF object.version
      some (writeInt session.size ++ (session.val ++ version))
    | none => some (writeInt 0)
  let ba ← codec.writeObject object.buffer
  some (session ++ (writeInt ba.size ++ ba.val))

/-- The part of `readObject` that reads the bytes of a session and their version. -/
def readSession (object : HAKieSerializedSession F) (len : Int32) :
    Reader (HAKieSerializedSession F) :=
  if 0 < len then do
    let session ← readArray len
    let version ← readUTF
    pure { object with session := some session, version := version }
  else pure object

/-- `HASerializedSessionExternalizer.readObject`. -/
def readObject (codec : FactCodec F) (rm : RulesManager) : Reader (HAKieSerializedSession F) := do
  let object : HAKieSerializedSession F ← StateT.lift (HAKieSerializedSession.new rm).toOption
  let len ← readInt
  let object ← readSession object len
  let lenBa ← readInt
  let ba ← readArray lenBa
  let buffer ← StateT.lift (codec.readObject ba.val)
  pure { object with buffer := buffer }

end HASerializedSessionExternalizer

namespace HASessionExternalizer

variable {E : KieEngine F}

/-- `HASessionExternalizer.writeObject`. -/
def writeObject (rm : RulesManager) (object : HAKieSession E) : Option (List UInt8) :=
  match object.session with
  | some session => do
    let container ← rm.getKieContainer.toOption
    let buffer ← (rm.serialize E container session).toOption
    let r ← rm.getReleaseId.toOption
    let version ← writeUTF r.version
    some (writeInt buffer.size ++ (buffer.val ++ version))
  | none => some (writeInt 0)

/-- `HASessionExternalizer.readObject`. -/
def readObject (rm : RulesManager) : Reader (HAKieSerializedSession F) := do
  let len ← readInt
  if 0 < len then do
    let buffer ← readArray len
    let version ← readUTF
    pure (.ofBytes version buffer)
  else StateT.lift (HAKieSerializedSession.new rm).toOption

end HASessionExternalizer

/-- `writeObject` of either externalizer. -/
def DeltaAware.writeObject {E : KieEngine F} (codec : FactCodec F) (rm : RulesManager) :
    DeltaAware E → Option (List UInt8)
  | .live h => HASessionExternalizer.writeObject rm h
  | .serialized s => HASerializedSessionExternalizer.writeObject codec s

/-- `readObject` of the externalizer that wrote the value. -/
def DeltaAware.readObject {E : KieEngine F} (codec : FactCodec F) (rm : RulesManager) :
    DeltaAware E → Reader (HAKieSerializedSession F)
  | .live _ => HASessionExternalizer.readObject rm
  | .serialized _ => HASerializedSessionExternalizer.readObject codec rm

/-! ## Reading what was written -/

theorem JBytes.toNatClampNeg_size (bytes : JBytes) :
    bytes.size.toNatClampNeg = bytes.val.length :=
  Int32.toNatClampNeg_ofNat_of_lt bytes.property

theorem JBytes.size_nonneg (bytes : JBytes) : 0 ≤ bytes.size := by
  rw [Int32.le_iff_toInt_le, size, Int32.toInt_ofNat_of_lt bytes.property]
  simp

theorem JBytes.size_pos {bytes : JBytes} (h : bytes.val ≠ []) : 0 < bytes.size := by
  have := List.length_pos_iff.2 h
  rw [Int32.lt_iff_toInt_lt, size, Int32.toInt_ofNat_of_lt bytes.property]
  simpa using this

/-- An array is read back where its length is. -/
theorem takes_readArray (bytes : JBytes) : Takes (readArray bytes.size) bytes.val bytes := by
  have hdecode : Takes (StateT.lift (if h : bytes.val.length < 2 ^ 31 ∧ 0 ≤ bytes.size then
      some (⟨bytes.val, h.1⟩ : JBytes) else none)) [] bytes :=
    takes_lift (dif_pos ⟨bytes.property, bytes.size_nonneg⟩)
  have hread := takes_read bytes.val
  rw [← JBytes.toNatClampNeg_size] at hread
  have := hread.bind (f := fun b => StateT.lift (if h : b.length < 2 ^ 31 ∧ 0 ≤ bytes.size then
      some (⟨b, h.1⟩ : JBytes) else none)) hdecode
  rwa [List.append_nil] at this

/-- The session that a reader on release `r` makes of what `writeObject` wrote of `s`. -/
def HAKieSerializedSession.copy (r : ReleaseId) (s : HAKieSerializedSession F) :
    HAKieSerializedSession F where
  version := if s.session.isSome then s.version else r.version
  session := s.session
  buffer := s.buffer

namespace HASerializedSessionExternalizer

/-- The bytes of a session and their version are read back. -/
theorem takes_readSession {session : JBytes} (hne : session.val ≠ []) {version : JString}
    {bytes : List UInt8} (hv : writeUTF version = some bytes) (object : HAKieSerializedSession F) :
    Takes (readSession object session.size) (session.val ++ bytes)
      { object with session := some session, version := version } := by
  rw [readSession, if_pos (JBytes.size_pos hne)]
  exact (takes_readArray session).bind ((takes_readUTF hv).bind_pure _)

/-- The facts are read back. -/
theorem takes_readBuffer {codec : FactCodec F} {buffer : List F} {ba : JBytes}
    (hba : codec.writeObject buffer = some ba) (object : HAKieSerializedSession F) :
    Takes (do
        let lenBa ← readInt
        let ba ← readArray lenBa
        let buffer ← StateT.lift (codec.readObject ba.val)
        pure { object with buffer := buffer })
      (writeInt ba.size ++ ba.val) { object with buffer := buffer } := by
  refine (takes_readInt _).bind ?_
  rw [← List.append_nil ba.val]
  refine (takes_readArray _).bind ?_
  exact (takes_lift (codec.readObject_writeObject buffer ba hba)).bind_pure _

/-- What `writeObject` wrote of a session is read as its `copy`. -/
theorem readObject_writeObject {codec : FactCodec F} {rm : RulesManager} {r : ReleaseId}
    (hr : rm.getReleaseId = .ok r) {s : HAKieSerializedSession F}
    (hne : s.BytesNonempty) {bytes : List UInt8}
    (hw : writeObject codec s = some bytes) : Takes (readObject codec rm) bytes (s.copy r) := by
  have hnew : (HAKieSerializedSession.new rm).toOption =
      some ({ version := r.version } : HAKieSerializedSession F) := by
    simp [HAKieSerializedSession.new, hr, bind, Except.bind, Except.toOption]
  rw [← List.nil_append bytes]
  refine (takes_lift hnew).bind ?_
  cases hs : s.session with
  | none =>
    simp only [writeObject, hs, Option.bind_eq_bind, Option.bind_some, Option.bind_eq_some_iff,
      Option.some.injEq] at hw
    obtain ⟨ba, hba, rfl⟩ := hw
    have hcopy : s.copy r = { version := r.version, buffer := s.buffer } := by
      simp [HAKieSerializedSession.copy, hs]
    rw [hcopy, ← List.nil_append (writeInt ba.size ++ _)]
    exact (takes_readInt 0).bind ((Takes.pure _).bind (takes_readBuffer hba _))
  | some session =>
    simp only [writeObject, hs, Option.bind_eq_bind, Option.bind_eq_some_iff,
      Option.some.injEq] at hw
    obtain ⟨version, hversion, _, rfl, ba, hba, rfl⟩ := hw
    have hcopy : s.copy r =
        { version := s.version, session := some session, buffer := s.buffer } := by
      simp [HAKieSerializedSession.copy, hs]
    rw [hcopy, List.append_assoc]
    exact (takes_readInt session.size).bind
      ((takes_readSession (hne session hs) hversion _).bind (takes_readBuffer hba _))

/-- What `writeObject` needs: the facts can be written, and the version, where it is written, fits
the length field. -/
theorem writeObject_isSome {codec : FactCodec F} {s : HAKieSerializedSession F} :
    (writeObject codec s).isSome ↔
      (codec.writeObject s.buffer).isSome ∧ (s.session.isSome → FitsUTF s.version) := by
  rw [← writeUTF_isSome]
  unfold writeObject
  cases s.session with
  | none => cases codec.writeObject s.buffer <;> simp
  | some session => cases codec.writeObject s.buffer <;> cases writeUTF s.version <;> simp

end HASerializedSessionExternalizer

namespace HASessionExternalizer

variable {E : KieEngine F}

/-- What `writeObject` wrote of a live session is read as a serialized session with the same facts,
as a constructor makes it. -/
theorem readObject_writeObject (H : FactHistory E)
    (hmarshall : ∀ r s b, E.marshall r s = .ok b → b.val ≠ []) {rm rm' : RulesManager}
    {r' : ReleaseId} (hr' : rm'.Running r') {h : HAKieSession E} {bytes : List UInt8}
    (hw : writeObject rm h = some bytes) :
    ∃ s : HAKieSerializedSession F, Takes (readObject rm') bytes s ∧
      s.history H = h.history H ∧ HAKieSerializedSession.Constructed E s := by
  cases hs : h.session with
  | none =>
    simp only [writeObject, hs, Option.some.injEq] at hw
    subst hw
    have hnew : HAKieSerializedSession.new rm' =
        .ok ({ version := r'.version } : HAKieSerializedSession F) := by
      simp [HAKieSerializedSession.new, hr'.getReleaseId, bind, Except.bind]
    refine ⟨_, ?_, by rw [HAKieSession.history, hs]; rfl, .inl ⟨rm', hnew⟩⟩
    rw [← List.append_nil (writeInt 0)]
    exact (takes_readInt 0).bind (takes_lift (by rw [hnew]; rfl))
  | some session =>
    simp only [writeObject, hs, Option.bind_eq_bind, Option.bind_eq_some_iff,
      Option.some.injEq] at hw
    obtain ⟨container, -, buffer, hbuffer, r, -, version, hversion, rfl⟩ := hw
    have hser : rm.serialize E container session = .ok buffer := by
      cases hb : rm.serialize E container session with
      | ok b => simp_all [Except.toOption]
      | error e => simp_all [Except.toOption]
    have hne := HAKieSerializedSession.serialize_ne_nil hmarshall hser
    refine ⟨.ofBytes r.version buffer, (takes_readInt buffer.size).bind ?_, ?_,
      .inr ⟨rm, container, session, r.version, buffer, hser, rfl⟩⟩
    · rw [if_pos (JBytes.size_pos hne)]
      exact (takes_readArray buffer).bind ((takes_readUTF hversion).bind_pure _)
    · rw [HAKieSession.history_of_session hs, ← RulesManager.serialize_ok H hser]
      simp [HAKieSerializedSession.history, HAKieSerializedSession.ofBytes, FactHistory.stored]

end HASessionExternalizer

end Hacep
