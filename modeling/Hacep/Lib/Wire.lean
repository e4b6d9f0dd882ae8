import Mathlib
import Hacep.Lib.Java

/-!
# The wire format of Java's object streams

The primitive writers of `ObjectOutput` with their readers of `ObjectInput`: `writeInt` is four
bytes, big-endian; `writeUTF` is a two-byte length and modified UTF-8, in which the code unit 0
takes two bytes and a surrogate three; `write` is the bytes themselves. `none` is an
`IOException`.

`Takes r bytes a` says that the reader `r` takes exactly `bytes` off the front of whatever input
follows and returns `a`. It composes along `bind`, so the round trip of a format is the round trips
of its fields.
-/

namespace Wire

open Java

/-- A reader of `ObjectInput`: the value and the bytes that are left. -/
abbrev Reader (α : Type) := StateT (List UInt8) Option α

variable {α β : Type}

/-- The reader takes exactly these bytes, whatever follows them, and returns the value. -/
def Takes (r : Reader α) (bytes : List UInt8) (a : α) : Prop :=
  ∀ rest, r.run (bytes ++ rest) = some (a, rest)

/-- Reading nothing. -/
theorem Takes.pure (a : α) : Takes (pure a : Reader α) [] a := fun _ => rfl

/-- Computing a value from what has been read. -/
theorem takes_lift {x : Option α} {a : α} (h : x = some a) :
    Takes (StateT.lift x : Reader α) [] a := by
  rw [h]
  exact Takes.pure a

/-- Reading one thing after the other takes the bytes of both. -/
theorem Takes.bind {r : Reader α} {f : α → Reader β} {bytes bytes' : List UInt8} {a : α} {b : β}
    (h : Takes r bytes a) (h' : Takes (f a) bytes' b) : Takes (r >>= f) (bytes ++ bytes') b := by
  intro rest
  rw [StateT.run_bind, List.append_assoc, h]
  exact h' rest

/-- What is read last may be returned inside a value. -/
theorem Takes.bind_pure {r : Reader α} {bytes : List UInt8} {a : α} (h : Takes r bytes a)
    (f : α → β) : Takes (r >>= fun a => Pure.pure (f a)) bytes (f a) := by
  have := h.bind (f := fun a => Pure.pure (f a)) (Takes.pure (f a))
  rwa [List.append_nil] at this

/-- What a reader that takes these bytes makes of them alone. -/
theorem Takes.run {r : Reader α} {bytes : List UInt8} {a : α} (h : Takes r bytes a) :
    r.run bytes = some (a, []) := by
  rw [← h [], List.append_nil]

/-- A reader returns one value for the bytes it takes. -/
theorem Takes.unique {r : Reader α} {bytes : List UInt8} {a b : α} (h : Takes r bytes a)
    (h' : Takes r bytes b) : a = b := by
  have := h.run.symm.trans h'.run
  simpa using this

/-! ## Numbers and bytes -/

/-- `readUnsignedByte`. -/
def readUnsignedByte : Reader ℕ := fun
  | [] => none
  | b :: rest => some (b.toNat, rest)

/-- The low byte of a number. -/
def writeByte (n : ℕ) : List UInt8 := [UInt8.ofNat n]

theorem takes_readUnsignedByte (n : ℕ) : Takes readUnsignedByte (writeByte n) (n % 2 ^ 8) := by
  intro rest
  simp [readUnsignedByte, writeByte, StateT.run]

/-- `writeShort`, for a length. -/
def writeShort (n : ℕ) : List UInt8 := writeByte (n / 2 ^ 8) ++ writeByte n

/-- `readUnsignedShort`. -/
def readUnsignedShort : Reader ℕ := do
  let a ← readUnsignedByte
  let b ← readUnsignedByte
  pure (a * 2 ^ 8 + b)

theorem takes_readUnsignedShort {n : ℕ} (h : n < 2 ^ 16) :
    Takes readUnsignedShort (writeShort n) n := by
  refine (takes_readUnsignedByte (n / 2 ^ 8)).bind ?_
  have := (takes_readUnsignedByte n).bind_pure fun b => n / 2 ^ 8 % 2 ^ 8 * 2 ^ 8 + b
  rwa [show n / 2 ^ 8 % 2 ^ 8 * 2 ^ 8 + n % 2 ^ 8 = n by omega] at this

/-- `writeInt`. -/
def writeInt (i : Int32) : List UInt8 :=
  writeShort (i.toUInt32.toNat / 2 ^ 16) ++ writeShort (i.toUInt32.toNat % 2 ^ 16)

/-- `readInt`. -/
def readInt : Reader Int32 := do
  let a ← readUnsignedShort
  let b ← readUnsignedShort
  pure (UInt32.ofNat (a * 2 ^ 16 + b)).toInt32

theorem takes_readInt (i : Int32) : Takes readInt (writeInt i) i := by
  have hlt := i.toUInt32.toNat_lt
  have hval : i.toUInt32.toNat / 2 ^ 16 * 2 ^ 16 + i.toUInt32.toNat % 2 ^ 16 = i.toUInt32.toNat := by
    omega
  refine (takes_readUnsignedShort (n := i.toUInt32.toNat / 2 ^ 16) (by omega)).bind ?_
  have := (takes_readUnsignedShort (n := i.toUInt32.toNat % 2 ^ 16) (by omega)).bind_pure
    fun b => (UInt32.ofNat (i.toUInt32.toNat / 2 ^ 16 * 2 ^ 16 + b)).toInt32
  rw [hval] at this
  simpa using this

/-- The high and the low half of a `long`. -/
def halves (i : Int64) : Int32 × Int32 :=
  ((UInt32.ofNat (i.toUInt64.toNat / 2 ^ 32)).toInt32,
    (UInt32.ofNat (i.toUInt64.toNat % 2 ^ 32)).toInt32)

/-- The `long` of two halves. -/
def ofHalves (high low : Int32) : Int64 :=
  (UInt64.ofNat (high.toUInt32.toNat * 2 ^ 32 + low.toUInt32.toNat)).toInt64

theorem ofHalves_halves (i : Int64) : ofHalves (halves i).1 (halves i).2 = i := by
  have hlt := i.toUInt64.toNat_lt
  have hhigh : (UInt32.ofNat (i.toUInt64.toNat / 2 ^ 32)).toNat = i.toUInt64.toNat / 2 ^ 32 := by
    simp; omega
  have hlow : (UInt32.ofNat (i.toUInt64.toNat % 2 ^ 32)).toNat = i.toUInt64.toNat % 2 ^ 32 := by
    simp
  have hval : i.toUInt64.toNat / 2 ^ 32 * 2 ^ 32 + i.toUInt64.toNat % 2 ^ 32 = i.toUInt64.toNat := by
    omega
  rw [ofHalves, halves, UInt32.toUInt32_toInt32, UInt32.toUInt32_toInt32, hhigh, hlow, hval,
    UInt64.ofNat_toNat, Int64.toInt64_toUInt64]

/-- `writeLong`. -/
def writeLong (i : Int64) : List UInt8 := writeInt (halves i).1 ++ writeInt (halves i).2

/-- `readLong`. -/
def readLong : Reader Int64 := do
  let high ← readInt
  let low ← readInt
  pure (ofHalves high low)

theorem takes_readLong (i : Int64) : Takes readLong (writeLong i) i := by
  refine (takes_readInt (halves i).1).bind ?_
  have := (takes_readInt (halves i).2).bind_pure fun low => ofHalves (halves i).1 low
  rwa [ofHalves_halves] at this

/-- `read(byte[])` of an input that delivers all requested bytes. -/
def read (n : ℕ) : Reader (List UInt8) := fun bytes =>
  if n ≤ bytes.length then some (bytes.take n, bytes.drop n) else none

theorem takes_read (bytes : List UInt8) : Takes (read bytes.length) bytes bytes := by
  intro rest
  simp [read, StateT.run]

/-! ## Modified UTF-8 -/

/-- The bytes of one code unit. -/
def utf (c : UInt16) : List UInt8 :=
  let n := c.toNat
  if 1 ≤ n ∧ n < 2 ^ 7 then writeByte n
  else if n < 2 ^ 11 then writeByte (0xC0 + n / 2 ^ 6) ++ writeByte (0x80 + n % 2 ^ 6)
  else writeByte (0xE0 + n / 2 ^ 12) ++ writeByte (0x80 + n / 2 ^ 6 % 2 ^ 6) ++
    writeByte (0x80 + n % 2 ^ 6)

/-- The code units of bytes, or `none` where they are malformed. -/
def decodeUtf : List UInt8 → Option JString
  | [] => some []
  | a :: rest =>
    if a.toNat < 0x80 then (decodeUtf rest).map (UInt16.ofNat a.toNat :: ·)
    else match rest with
      | [] => none
      | b :: rest =>
        if b.toNat / 2 ^ 6 ≠ 2 then none
        else if a.toNat / 2 ^ 5 = 6 then
          (decodeUtf rest).map (UInt16.ofNat (a.toNat % 2 ^ 5 * 2 ^ 6 + b.toNat % 2 ^ 6) :: ·)
        else match rest with
          | [] => none
          | c :: rest =>
            if c.toNat / 2 ^ 6 = 2 ∧ a.toNat / 2 ^ 4 = 14 then
              (decodeUtf rest).map (UInt16.ofNat
                (a.toNat % 2 ^ 4 * 2 ^ 12 + b.toNat % 2 ^ 6 * 2 ^ 6 + c.toNat % 2 ^ 6) :: ·)
            else none

/-- `writeUTF`: a text whose bytes do not fit the length field throws. -/
def writeUTF (s : JString) : Option (List UInt8) :=
  let bytes := s.flatMap utf
  if bytes.length < 2 ^ 16 then some (writeShort bytes.length ++ bytes) else none

/-- What `writeUTF` needs of a text. -/
def FitsUTF (s : JString) : Prop := (s.flatMap utf).length < 2 ^ 16

instance (s : JString) : Decidable (FitsUTF s) := Nat.decLt _ _

theorem writeUTF_isSome {s : JString} : (writeUTF s).isSome ↔ FitsUTF s := by
  simp only [writeUTF, FitsUTF]
  split
  · exact iff_of_true rfl ‹_›
  · exact iff_of_false Bool.false_ne_true ‹_›

/-- `readUTF`. -/
def readUTF : Reader JString := do
  let n ← readUnsignedShort
  let bytes ← read n
  StateT.lift (decodeUtf bytes)

theorem decodeUtf_one {a : UInt8} (ha : a.toNat < 0x80) (rest : List UInt8) :
    decodeUtf (a :: rest) = (decodeUtf rest).map (UInt16.ofNat a.toNat :: ·) := by
  rw [decodeUtf.eq_def]
  simp only [ha, if_true]

theorem decodeUtf_two {a b : UInt8} (ha : a.toNat / 2 ^ 5 = 6) (hb : b.toNat / 2 ^ 6 = 2)
    (rest : List UInt8) :
    decodeUtf (a :: b :: rest) = (decodeUtf rest).map
      (UInt16.ofNat (a.toNat % 2 ^ 5 * 2 ^ 6 + b.toNat % 2 ^ 6) :: ·) := by
  rw [decodeUtf.eq_def]
  simp only [show ¬a.toNat < 0x80 by omega, if_false]
  simp only [hb, ha, ne_eq, not_true_eq_false, if_false, if_true]

theorem decodeUtf_three {a b c : UInt8} (ha : a.toNat / 2 ^ 4 = 14) (hb : b.toNat / 2 ^ 6 = 2)
    (hc : c.toNat / 2 ^ 6 = 2) (rest : List UInt8) :
    decodeUtf (a :: b :: c :: rest) = (decodeUtf rest).map (UInt16.ofNat
      (a.toNat % 2 ^ 4 * 2 ^ 12 + b.toNat % 2 ^ 6 * 2 ^ 6 + c.toNat % 2 ^ 6) :: ·) := by
  have ha' : a.toNat / 2 ^ 5 ≠ 6 := by omega
  rw [decodeUtf.eq_def]
  simp only [show ¬a.toNat < 0x80 by omega, if_false]
  simp only [hb, ha', ha, hc, ne_eq, not_true_eq_false, if_false, and_self, if_true]

/-- One code unit reads back, whatever follows it. -/
theorem decodeUtf_utf_append (c : UInt16) (rest : List UInt8) :
    decodeUtf (utf c ++ rest) = (decodeUtf rest).map (c :: ·) := by
  have hlt := c.toNat_lt
  have hbyte : ∀ n < 2 ^ 8, (UInt8.ofNat n).toNat = n := fun n h => by simp; omega
  have hunit : ∀ n, n = c.toNat → UInt16.ofNat n = c := fun n h => by simp [h]
  simp only [utf]
  split_ifs with h₁ h₂
  · have ha := hbyte c.toNat (by omega)
    refine (decodeUtf_one (by omega) rest).trans ?_
    rw [ha, hunit c.toNat rfl]
  · have ha := hbyte (0xC0 + c.toNat / 2 ^ 6) (by omega)
    have hb := hbyte (0x80 + c.toNat % 2 ^ 6) (by omega)
    refine (decodeUtf_two (by omega) (by omega) rest).trans ?_
    rw [ha, hb, hunit _ (by omega)]
  · have ha := hbyte (0xE0 + c.toNat / 2 ^ 12) (by omega)
    have hb := hbyte (0x80 + c.toNat / 2 ^ 6 % 2 ^ 6) (by omega)
    have hd := hbyte (0x80 + c.toNat % 2 ^ 6) (by omega)
    refine (decodeUtf_three (by omega) (by omega) (by omega) rest).trans ?_
    rw [ha, hb, hd, hunit _ (by omega)]

/-- Modified UTF-8 reads back. -/
theorem decodeUtf_flatMap_utf (s : JString) : decodeUtf (s.flatMap utf) = some s := by
  induction s with
  | nil => rfl
  | cons c s ih => rw [List.flatMap_cons, decodeUtf_utf_append, ih]; rfl

/-- What `writeUTF` writes, `readUTF` takes. -/
theorem takes_readUTF {s : JString} {bytes : List UInt8} (h : writeUTF s = some bytes) :
    Takes readUTF bytes s := by
  simp only [writeUTF] at h
  split at h
  · cases h
    refine (takes_readUnsignedShort ‹_›).bind ?_
    have := (takes_read (s.flatMap utf)).bind
      (f := fun bytes => StateT.lift (decodeUtf bytes)) (takes_lift (decodeUtf_flatMap_utf s))
    rwa [List.append_nil] at this
  · cases h

end Wire
