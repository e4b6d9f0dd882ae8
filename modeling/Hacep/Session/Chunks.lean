import Hacep.Lib.Chunks
import Hacep.Session.Externalizer

/-!
# Reading a session from chunks

Both externalizers read the bytes of an array with one call of `read(byte[])` and do not look at how
many it delivered. `readObjectFrom` is `readObject` over an input that delivers in chunks; where
every call delivers all it can, it is the `readObject` of a whole input (`follows_readObject`).

Where a call delivers less, the rest of the array stays zero and what follows is read from the bytes
that were left. `readObject_chunkFree_iff` says which sessions come out the same whatever the
chunks: no serialized session, since the array of its facts begins with the header of an object
stream, which one byte of it is not; and of the live sessions those without a session, those of one
byte, and those whose bytes after the first are zero with an empty version, where what is left looks
like what was read.
-/

namespace Hacep

open Java Wire

variable {F : Type}

/-- The array of these bytes, which is not longer than an array can be. -/
def JBytes.ofList (bytes : List UInt8) : Option JBytes :=
  if h : bytes.length < 2 ^ 31 then some ⟨bytes, h⟩ else none

/-- `new byte[len]`, and one call of `read` into it. -/
def readArrayFrom (c : Chunking) (len : Int32) : ChunkReader JBytes :=
  if 0 ≤ len then do
    let bytes ← readChunk c len.toNatClampNeg
    StateT.lift (JBytes.ofList bytes)
  else StateT.lift none

namespace HASerializedSessionExternalizer

/-- The part of `readObject` that reads the bytes of a session and their version, from chunks. -/
def readSessionFrom (c : Chunking) (object : HAKieSerializedSession F) (len : Int32) :
    ChunkReader (HAKieSerializedSession F) :=
  if 0 < len then do
    let session ← readArrayFrom c len
    let version ← fully readUTF
    pure { object with session := some session, version := version }
  else pure object

/-- `HASerializedSessionExternalizer.readObject`, from an input that delivers in chunks. -/
def readObjectFrom (codec : FactCodec F) (rm : RulesManager) (c : Chunking) :
    ChunkReader (HAKieSerializedSession F) := do
  let object : HAKieSerializedSession F ← StateT.lift (HAKieSerializedSession.new rm).toOption
  let len ← fully readInt
  let object ← readSessionFrom c object len
  let lenBa ← fully readInt
  let ba ← readArrayFrom c lenBa
  let buffer ← StateT.lift (codec.readObject ba.val)
  pure { object with buffer := buffer }

end HASerializedSessionExternalizer

/-- `HASessionExternalizer.readObject`, from an input that delivers in chunks. -/
def HASessionExternalizer.readObjectFrom (rm : RulesManager) (c : Chunking) :
    ChunkReader (HAKieSerializedSession F) := do
  let len ← fully readInt
  if 0 < len then do
    let buffer ← readArrayFrom c len
    let version ← fully readUTF
    pure (.ofBytes version buffer)
  else StateT.lift (HAKieSerializedSession.new rm).toOption

/-! ## Where every call delivers all it can -/

theorem follows_readArray (len : Int32) : Follows (readArray len) (readArrayFrom .full len) := by
  rw [readArrayFrom]
  split
  · rename_i hlen
    refine (follows_readChunk _).bind fun bytes => ?_
    refine follows_lift ?_
    by_cases hbytes : bytes.length < 2 ^ 31
    · have hlist : JBytes.ofList bytes = some ⟨bytes, hbytes⟩ := dif_pos hbytes
      exact (dif_pos ⟨hbytes, hlen⟩).trans hlist.symm
    · have hlist : JBytes.ofList bytes = none := dif_neg hbytes
      exact (dif_neg fun h => hbytes h.1).trans hlist.symm
  · -- An array of negative length is refused by both.
    rename_i hlen
    intro calls bytes a rest h
    rw [readArray, StateT.run_bind] at h
    obtain ⟨delivered, -, h⟩ := Option.bind_eq_some_iff.1 h
    rw [dif_neg fun h => hlen h.2] at h
    cases h

/-- The readers of chunks read what those of a whole input read. -/
theorem HASerializedSessionExternalizer.follows_readObject (codec : FactCodec F)
    (rm : RulesManager) : Follows (readObject codec rm) (readObjectFrom codec rm .full) := by
  refine (follows_lift rfl).bind fun object => (follows_fully _).bind fun len => ?_
  refine Follows.bind ?_ fun object => (follows_fully _).bind fun lenBa => ?_
  · rw [readSession, readSessionFrom]
    split
    · exact (follows_readArray _).bind fun _ => (follows_fully _).bind fun _ => .pure _
    · exact .pure _
  · exact (follows_readArray _).bind fun _ => (follows_lift rfl).bind fun _ => .pure _

theorem HASessionExternalizer.follows_readObject (rm : RulesManager) :
    Follows (readObject (F := F) rm) (readObjectFrom rm .full) := by
  refine (follows_fully _).bind fun len => ?_
  split
  · exact (follows_readArray _).bind fun _ => (follows_fully _).bind fun _ => .pure _
  · exact follows_lift rfl

/-! ## A read that is not looked at -/

/-- The array after a read has delivered the first bytes. -/
def JBytes.partly (bytes : JBytes) (count : ℕ) : JBytes where
  val := bytes.val.take count ++ List.replicate (bytes.val.length - count) 0
  property := by
    have hbytes := bytes.property
    rw [List.length_append, List.length_take, List.length_replicate]
    omega

theorem JBytes.partly_val (bytes : JBytes) (count : ℕ) : (bytes.partly count).val =
    bytes.val.take count ++ List.replicate (bytes.val.length - count) 0 := rfl

/-- The array is the written one exactly when all that has not been delivered is zero. -/
theorem JBytes.partly_eq_iff {bytes : JBytes} {count : ℕ} :
    bytes.partly count = bytes ↔ ∀ b ∈ bytes.val.drop count, b = 0 := by
  have hsplit : bytes.val = bytes.val.take count ++ bytes.val.drop count :=
    (List.take_append_drop _ _).symm
  have hval : bytes.partly count = bytes ↔
      List.replicate (bytes.val.drop count).length 0 = bytes.val.drop count := by
    refine ⟨fun h => ?_, fun h => Subtype.ext ?_⟩
    · have hval := congrArg Subtype.val h
      rw [partly_val, ← List.length_drop] at hval
      exact List.append_cancel_left (hval.trans hsplit)
    · rw [partly_val, ← List.length_drop, h]
      exact hsplit.symm
  rw [hval, eq_comm, List.eq_replicate_iff]
  exact and_iff_right rfl

/-- A read into an array of the written length. -/
theorem readArrayFrom_run {c : Chunking} {calls count : ℕ} {bytes : JBytes} {rest : List UInt8}
    (h : c.count calls bytes.val.length (bytes.val ++ rest).length = count) :
    (readArrayFrom c bytes.size).run ⟨calls, bytes.val ++ rest⟩ =
      some (bytes.partly count, ⟨calls + 1, bytes.val.drop count ++ rest⟩) := by
  have hchunk := readChunk_run h
  rw [← JBytes.toNatClampNeg_size] at hchunk
  rw [readArrayFrom, if_pos bytes.size_nonneg, ChunkReader.run_bind_of_some hchunk]
  refine ChunkReader.lift_run ?_ _
  rw [JBytes.toNatClampNeg_size]
  exact dif_pos (bytes.partly count).property

/-- A read that fills the array. -/
theorem readArrayFrom_run_full {c : Chunking} {calls : ℕ} {bytes : JBytes} {rest : List UInt8}
    (h : c.count calls bytes.val.length (bytes.val ++ rest).length = bytes.val.length) :
    (readArrayFrom c bytes.size).run ⟨calls, bytes.val ++ rest⟩ =
      some (bytes, ⟨calls + 1, rest⟩) := by
  rw [readArrayFrom_run h, List.drop_length, List.nil_append, JBytes.partly_eq_iff.2]
  rw [List.drop_length]
  exact fun b hb => absurd hb List.not_mem_nil

/-- The header of an object stream. -/
def streamHeader : List UInt8 := [0xAC, 0xED, 0x00, 0x05]

/-- With one byte of it, an object stream has no header. -/
theorem not_header_partly_one {ba : JBytes} (h : streamHeader <+: ba.val) :
    ¬streamHeader <+: (ba.partly 1).val := by
  obtain ⟨rest, hrest⟩ := h
  rw [JBytes.partly_val, ← hrest]
  simp [streamHeader, List.replicate_succ]

namespace HASerializedSessionExternalizer

variable {codec : FactCodec F} {rm : RulesManager}

/-- The array of the facts, of which one byte has been delivered, is not an object stream. -/
theorem readBuffer_shortAt (hheader : ∀ bytes facts, codec.readObject bytes = some facts →
    streamHeader <+: bytes) {buffer : List F} {ba : JBytes}
    (hba : codec.writeObject buffer = some ba) (object : HAKieSerializedSession F) (call : ℕ) :
    (do
      let lenBa ← fully readInt
      let ba ← readArrayFrom (.shortAt call) lenBa
      let buffer ← StateT.lift (codec.readObject ba.val)
      pure { object with buffer := buffer } : ChunkReader (HAKieSerializedSession F)).run
      ⟨call, writeInt ba.size ++ ba.val⟩ = none := by
  have hprefix : streamHeader <+: ba.val :=
    hheader _ _ (codec.readObject_writeObject buffer ba hba)
  have hpos : 0 < ba.val.length := Nat.lt_of_lt_of_le (by decide) hprefix.length_le
  have hcount : (Chunking.shortAt call).count call ba.val.length (ba.val ++ []).length = 1 := by
    refine Chunking.shortAt_self hpos ?_
    rw [List.append_nil]
    exact hpos
  have hread := readArrayFrom_run hcount
  rw [List.append_nil] at hread
  rw [ChunkReader.run_bind_of_some (fully_run_of_takes (takes_readInt ba.size) call ba.val),
    ChunkReader.run_bind_of_some hread]
  have hnone : codec.readObject (ba.partly 1).val = none := by
    refine Option.eq_none_iff_forall_ne_some.2 fun facts h => ?_
    exact not_header_partly_one hprefix (hheader _ _ h)
  rw [hnone]
  rfl

/-- Where only the second call falls short, the bytes of the session and its version are read. -/
theorem readSession_shortAt {session : JBytes} (hne : session.val ≠ []) {version : JString}
    {bytes : List UInt8} (hversion : writeUTF version = some bytes)
    (object : HAKieSerializedSession F) (rest : List UInt8) :
    (readSessionFrom (.shortAt 1) object session.size).run
        ⟨0, session.val ++ (bytes ++ rest)⟩ =
      some ({ object with session := some session, version := version }, ⟨1, rest⟩) := by
  have hcount : (Chunking.shortAt 1).count 0 session.val.length
      (session.val ++ (bytes ++ rest)).length = session.val.length := by
    refine Chunking.shortAt_of_ne (by decide) ?_
    rw [List.length_append]
    exact Nat.le_add_right _ _
  rw [readSessionFrom, if_pos (JBytes.size_pos hne),
    ChunkReader.run_bind_of_some (readArrayFrom_run_full hcount),
    ChunkReader.run_bind_of_some (fully_run_of_takes (takes_readUTF hversion) 1 rest)]
  rfl

/-- A new session has no bytes. -/
theorem new_session {object : HAKieSerializedSession F}
    (h : (HAKieSerializedSession.new rm).toOption = some object) : object.session = none := by
  cases hr : rm.getReleaseId with
  | error e =>
    simp [HAKieSerializedSession.new, hr, bind, Except.bind, Except.toOption] at h
  | ok r =>
    simp only [HAKieSerializedSession.new, hr, bind, Except.bind, Except.toOption,
      Option.some.injEq] at h
    rw [← h]

/-- For every session that is written there are chunks from which it is not read: the call that
reads the array of the facts delivers one byte. -/
theorem not_chunkFree (hheader : ∀ bytes facts, codec.readObject bytes = some facts →
    streamHeader <+: bytes) {s : HAKieSerializedSession F} {bytes : List UInt8}
    (hw : writeObject codec s = some bytes) (r : ReleaseId) :
    ¬ChunkFree (readObjectFrom codec rm) bytes (s.copy r) := by
  intro hfree
  cases hs : s.session with
  | none =>
    simp only [writeObject, hs, Option.bind_eq_bind, Option.bind_some, Option.bind_eq_some_iff,
      Option.some.injEq] at hw
    obtain ⟨ba, hba, rfl⟩ := hw
    obtain ⟨input, h⟩ := ChunkReader.value_eq_some.1 (hfree (.shortAt 0))
    obtain ⟨object, _, hnew, h⟩ := ChunkReader.run_bind_eq_some.1 h
    obtain ⟨-, rfl⟩ := ChunkReader.lift_run_eq_some.1 hnew
    rw [ChunkReader.run_bind_of_some (fully_run_of_takes (takes_readInt 0) 0 _), readSessionFrom,
      if_neg (by decide), pure_bind] at h
    cases (readBuffer_shortAt hheader hba object 0).symm.trans h
  | some session =>
    simp only [writeObject, hs, Option.bind_eq_bind, Option.bind_eq_some_iff,
      Option.some.injEq] at hw
    obtain ⟨version, hversion, _, rfl, ba, hba, rfl⟩ := hw
    obtain ⟨input, h⟩ := ChunkReader.value_eq_some.1 (hfree (.shortAt 1))
    obtain ⟨object, _, hnew, h⟩ := ChunkReader.run_bind_eq_some.1 h
    obtain ⟨hobject, rfl⟩ := ChunkReader.lift_run_eq_some.1 hnew
    rw [List.append_assoc, List.append_assoc,
      ChunkReader.run_bind_of_some (fully_run_of_takes (takes_readInt session.size) 0 _)] at h
    by_cases hne : session.val = []
    · -- No bytes are read, and the session that is returned has none.
      have hzero : session.size = 0 := by
        rw [JBytes.size, hne]
        rfl
      rw [readSessionFrom, hzero, if_neg (by decide), pure_bind] at h
      obtain ⟨lenBa, _, -, h⟩ := ChunkReader.run_bind_eq_some.1 h
      obtain ⟨ba', _, -, h⟩ := ChunkReader.run_bind_eq_some.1 h
      obtain ⟨buffer, _, -, h⟩ := ChunkReader.run_bind_eq_some.1 h
      have hcopy : ({ object with buffer := buffer } : HAKieSerializedSession F) = s.copy r :=
        congrArg Prod.fst (Option.some.inj h)
      have hsession := congrArg HAKieSerializedSession.session hcopy
      rw [HAKieSerializedSession.copy, hs] at hsession
      cases (new_session hobject).symm.trans hsession
    · -- The first call of `read` fills its array, and the second does not.
      rw [ChunkReader.run_bind_of_some (readSession_shortAt hne hversion object _)] at h
      cases (readBuffer_shortAt hheader hba _ 1).symm.trans h

end HASerializedSessionExternalizer

namespace HASessionExternalizer

variable {E : KieEngine F} {rm rm' : RulesManager}

/-- The serialized session that stands for a live one on a node with the release `r'`. -/
def image (rm : RulesManager) (r' : ReleaseId) (h : HAKieSession E) :
    Option (HAKieSerializedSession F) :=
  match h.session with
  | none => some { version := r'.version }
  | some session => do
    let container ← rm.getKieContainer.toOption
    let buffer ← (rm.serialize E container session).toOption
    let r ← rm.getReleaseId.toOption
    some (.ofBytes r.version buffer)

/-- What comes of the bytes of a session and its version: the first bytes of the one, and a text
read from what is left of both. -/
theorem readObjectFrom_value {buffer : JBytes} (hne : buffer.val ≠ []) (c : Chunking)
    (version : List UInt8) :
    (readObjectFrom (F := F) rm' c).value (writeInt buffer.size ++ (buffer.val ++ version)) =
      (readUTF.run (buffer.val.drop (c.count 0 buffer.val.length (buffer.val ++ version).length) ++
        version)).map fun text => .ofBytes text.1
          (buffer.partly (c.count 0 buffer.val.length (buffer.val ++ version).length)) := by
  have hread : (readArrayFrom c buffer.size).run ⟨0, buffer.val ++ version⟩ = some _ :=
    readArrayFrom_run rfl
  rw [ChunkReader.value, readObjectFrom,
    ChunkReader.run_bind_of_some (fully_run_of_takes (takes_readInt buffer.size) 0 _),
    if_pos (JBytes.size_pos hne), ChunkReader.run_bind_of_some hread, StateT.run_bind, fully_run]
  cases readUTF.run (buffer.val.drop
    (c.count 0 buffer.val.length (buffer.val ++ version).length) ++ version) <;> rfl

/-- No chunk of the bytes, with the version after them, reads differently from all of them: there is
one byte, or all bytes after the first are zero and the version is empty. -/
def Indivisible (buffer : JBytes) (version : JString) : Prop :=
  buffer.val.length = 1 ∨ buffer.val ≠ [] ∧ version = [] ∧ ∀ b ∈ buffer.val.tail, b = 0

section ChunkFree

variable {buffer : JBytes} {version : JString} {bytes : List UInt8}

/-- The reader takes no bytes for no session. -/
theorem not_chunkFree_of_nil (hnil : buffer.val = []) :
    ¬ChunkFree (readObjectFrom (F := F) rm') (writeInt buffer.size ++ (buffer.val ++ bytes))
      (.ofBytes version buffer) := by
  intro hfree
  have hzero : buffer.size = 0 := by
    rw [JBytes.size, hnil]
    rfl
  obtain ⟨input, h⟩ := ChunkReader.value_eq_some.1 (hfree .full)
  rw [readObjectFrom, ChunkReader.run_bind_of_some (fully_run_of_takes (takes_readInt _) 0 _),
    hzero, if_neg (by decide)] at h
  obtain ⟨hnew, -⟩ := ChunkReader.lift_run_eq_some.1 h
  cases HASerializedSessionExternalizer.new_session hnew

/-- Where one byte is delivered, the text is read from behind it. -/
theorem indivisible_of_chunkFree (hversion : writeUTF version = some bytes)
    (hne : buffer.val ≠ [])
    (hfree : ChunkFree (readObjectFrom (F := F) rm')
      (writeInt buffer.size ++ (buffer.val ++ bytes)) (.ofBytes version buffer)) :
    Indivisible buffer version := by
  have hpos : 0 < buffer.val.length := List.length_pos_iff.2 hne
  have hleft : 0 < (buffer.val ++ bytes).length := by
    rw [List.length_append]
    exact Nat.add_pos_left hpos _
  by_cases hone : buffer.val.length = 1
  · exact .inl hone
  have h := hfree (.shortAt 0)
  rw [readObjectFrom_value hne, Chunking.shortAt_self hpos hleft] at h
  obtain ⟨text, hread, h⟩ := Option.map_eq_some_iff.1 h
  have htext : text.1 = version := congrArg HAKieSerializedSession.version h
  have hpartly : buffer.partly 1 = buffer :=
    Option.some.inj (congrArg HAKieSerializedSession.session h)
  -- The array is the written one, so all that is left of it in front of the text is zero.
  have hzero : ∀ b ∈ buffer.val.drop 1, b = 0 := JBytes.partly_eq_iff.1 hpartly
  have hdrop : buffer.val.drop 1 = List.replicate (buffer.val.length - 1) 0 :=
    List.eq_replicate_iff.2 ⟨List.length_drop, hzero⟩
  have hread' : readUTF.run (List.replicate (buffer.val.length - 1) 0 ++ bytes) =
      some (version, text.2) := by
    rw [← hdrop, hread, ← htext]
  rw [List.drop_one] at hzero
  exact .inr ⟨hne, eq_nil_of_readUTF (by omega) hversion hread', hzero⟩

/-- One byte is always delivered, and zeros are as good as those that the array has anyway. -/
theorem chunkFree_of_indivisible (hversion : writeUTF version = some bytes)
    (h : Indivisible buffer version) :
    ChunkFree (readObjectFrom (F := F) rm') (writeInt buffer.size ++ (buffer.val ++ bytes))
      (.ofBytes version buffer) := by
  have hne : buffer.val ≠ [] := by
    rcases h with hone | ⟨hne, -⟩
    · rintro hnil
      rw [hnil] at hone
      cases hone
    · exact hne
  have hpos : 0 < buffer.val.length := List.length_pos_iff.2 hne
  have hleft : 0 < (buffer.val ++ bytes).length := by
    rw [List.length_append]
    exact Nat.add_pos_left hpos _
  intro c
  rw [readObjectFrom_value hne]
  generalize hcount : c.count 0 buffer.val.length (buffer.val ++ bytes).length = count
  have hcountpos : 0 < count := hcount ▸ c.pos _ _ _ hpos hleft
  -- What has not been delivered is zero, so the array is the written one.
  have hrest : ∀ b ∈ buffer.val.drop count, b = 0 := by
    intro b hb
    have htail : b ∈ buffer.val.drop 1 := List.drop_subset_drop_left _ hcountpos hb
    rcases h with hone | ⟨-, -, hzero⟩
    · rw [List.drop_eq_nil_of_le hone.le] at htail
      exact absurd htail List.not_mem_nil
    · rw [List.drop_one] at htail
      exact hzero b htail
  rw [JBytes.partly_eq_iff.2 hrest]
  rcases h with hone | ⟨-, rfl, -⟩
  · have hdrop : buffer.val.drop count = [] := List.drop_eq_nil_of_le (by omega)
    rw [hdrop, List.nil_append, (takes_readUTF hversion).run]
    rfl
  · -- The two bytes of the empty version are zero too.
    have hbytes : bytes = [0, 0] := (Option.some.inj hversion).symm
    have hzeros : ∀ b ∈ buffer.val.drop count ++ bytes, b = 0 := by
      intro b hb
      rcases List.mem_append.1 hb with hb | hb
      · exact hrest b hb
      · rw [hbytes] at hb
        simpa using hb
    have htwo : 2 ≤ (buffer.val.drop count ++ bytes).length := by
      rw [List.length_append, hbytes]
      exact Nat.le_add_left _ _
    obtain ⟨rest, hread⟩ := readUTF_of_zeros hzeros htwo
    rw [hread]
    rfl

/-- The bytes and the version of a live session are read back whatever the chunks, if and only if
they are indivisible. -/
theorem chunkFree_iff (hversion : writeUTF version = some bytes) :
    ChunkFree (readObjectFrom (F := F) rm') (writeInt buffer.size ++ (buffer.val ++ bytes))
        (.ofBytes version buffer) ↔ Indivisible buffer version := by
  by_cases hnil : buffer.val = []
  · refine iff_of_false (not_chunkFree_of_nil hnil) ?_
    rintro (hone | ⟨hne, -⟩)
    · rw [hnil] at hone
      cases hone
    · exact hne hnil
  · exact ⟨indivisible_of_chunkFree hversion hnil, chunkFree_of_indivisible hversion⟩

end ChunkFree

end HASessionExternalizer

/-- Over chunks of any size, no serialized session that is written is read back for certain, and a
live session is exactly if it is empty or indivisible. -/
theorem readObject_chunkFree_iff {E : KieEngine F} {codec : FactCodec F} {rm rm' : RulesManager}
    {r' : ReleaseId} (hheader : ∀ bytes facts, codec.readObject bytes = some facts →
      streamHeader <+: bytes) (hr' : rm'.getReleaseId = .ok r') :
    (∀ s bytes, HASerializedSessionExternalizer.writeObject codec s = some bytes →
      ¬ChunkFree (HASerializedSessionExternalizer.readObjectFrom codec rm') bytes (s.copy r')) ∧
    ∀ (h : HAKieSession E) bytes, HASessionExternalizer.writeObject rm h = some bytes →
      ∃ s, HASessionExternalizer.image rm r' h = some s ∧
        (ChunkFree (HASessionExternalizer.readObjectFrom rm') bytes s ↔
          ∀ buffer, s.session = some buffer →
            HASessionExternalizer.Indivisible buffer s.version) := by
  refine ⟨fun s bytes hw => HASerializedSessionExternalizer.not_chunkFree hheader hw r', ?_⟩
  intro h bytes hw
  rw [HASessionExternalizer.writeObject] at hw
  rw [HASessionExternalizer.image]
  cases hs : h.session with
  | none =>
    simp only [hs, Option.some.injEq] at hw
    subst hw
    refine ⟨_, rfl, iff_of_true (fun c => ?_) fun _ hbuffer => by cases hbuffer⟩
    have hnew : (HAKieSerializedSession.new rm').toOption =
        some ({ version := r'.version } : HAKieSerializedSession F) := by
      simp [HAKieSerializedSession.new, hr', bind, Except.bind, Except.toOption]
    have hint := fully_run_of_takes (takes_readInt 0) 0 []
    rw [List.append_nil] at hint
    refine ChunkReader.value_eq_some.2 ⟨⟨0, []⟩, ?_⟩
    rw [HASessionExternalizer.readObjectFrom, ChunkReader.run_bind_of_some hint,
      if_neg (by decide)]
    exact ChunkReader.lift_run hnew _
  | some session =>
    simp only [hs, Option.bind_eq_bind, Option.bind_eq_some_iff, Option.some.injEq] at hw
    obtain ⟨container, hcontainer, buffer, hbuffer, r, hr, version, hversion, rfl⟩ := hw
    refine ⟨.ofBytes r.version buffer, ?_, ?_⟩
    · simp only [hcontainer, hbuffer, hr, Option.bind_eq_bind, Option.bind_some]
    · refine (HASessionExternalizer.chunkFree_iff hversion).trans ⟨?_, fun hall => hall buffer rfl⟩
      intro hindivisible buffer' h'
      cases h'
      exact hindivisible

/-- The readings in an array, behind the header of an object stream. -/
def streamCodec : FactCodec Reading where
  writeObject readings :=
    if h : (streamHeader ++ readings.map Reading.value).length < 2 ^ 31 then some ⟨_, h⟩ else none
  readObject bytes :=
    if streamHeader <+: bytes then some ((bytes.drop streamHeader.length).map Reading.mk) else none
  readObject_writeObject readings bytes h := by
    split at h
    · cases h
      rw [if_pos (List.prefix_append _ _), List.drop_left]
      simp [show Reading.mk ∘ Reading.value = id from rfl]
    · cases h

theorem streamCodec_header (bytes : List UInt8) (readings : List Reading)
    (h : streamCodec.readObject bytes = some readings) : streamHeader <+: bytes := by
  simp only [streamCodec] at h
  split at h
  · assumption
  · cases h

/-- A serialized session with one reading, and a live session without any. -/
theorem readObject_chunkFree_iff_written :
    ¬ChunkFree (HASerializedSessionExternalizer.readObjectFrom streamCodec
        (Recorder.manager (jstr "1")))
      (writeInt 0 ++ (writeInt 5 ++ (streamHeader ++ [7])))
      { version := jstr "1", buffer := [⟨7⟩] } ∧
    ChunkFree (HASessionExternalizer.readObjectFrom (F := Reading) (Recorder.manager (jstr "1")))
      (writeInt 0) { version := jstr "1" } := by
  have h := @readObject_chunkFree_iff Reading Recorder.engine streamCodec
    (Recorder.manager (jstr "1")) (Recorder.manager (jstr "1")) _ streamCodec_header
    (Recorder.manager_running (jstr "1")).getReleaseId
  refine ⟨h.1 { version := jstr "1", size := 1, buffer := [⟨7⟩] } _ (by decide +kernel), ?_⟩
  obtain ⟨s, hs, hiff⟩ := h.2 ⟨none, none⟩ _ rfl
  cases hs
  exact hiff.2 fun _ hbuffer => by cases hbuffer

/-- A live session with one reading, of version 1: where the first read delivers one byte, what is
read is a session of the empty version whose bytes are all zero. -/
theorem oneByte_differs :
    ∃ bytes, HASessionExternalizer.writeObject (E := Recorder.engine) (Recorder.manager (jstr "1"))
        ⟨none, some (.ofState { clock := 7, alone := 1, readings := [⟨7⟩] })⟩ = some bytes ∧
      (HASessionExternalizer.readObjectFrom (Recorder.manager (jstr "1")) .full).value bytes =
        some (.ofBytes (F := Reading) (jstr "1") ⟨[0, 0, 0, 0, 0, 0, 0, 7, 1, 7], by decide⟩) ∧
      (HASessionExternalizer.readObjectFrom (Recorder.manager (jstr "1")) (.shortAt 0)).value
          bytes =
        some (.ofBytes (F := Reading) [] ⟨[0, 0, 0, 0, 0, 0, 0, 0, 0, 0], by decide⟩) := by
  refine ⟨writeInt 10 ++ ([0, 0, 0, 0, 0, 0, 0, 7, 1, 7] ++ [0, 1, 49]), ?_, ?_, ?_⟩ <;>
    decide +kernel

end Hacep
