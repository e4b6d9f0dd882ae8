import Mathlib
import Hacep.Lib.Wire

/-!
# Inputs that deliver in chunks

`read(byte[])` of an `ObjectInput` may deliver fewer bytes than the array takes, and reports how
many they are. A `Chunking` says how many each call delivers: at least one where the array is not
empty and the input has not ended, and at most what the array takes and what is left. Where a caller
does not look at the number, the rest of its new array is zero (`readChunk`), and what was not
delivered is still in front of the next read. `readInt` and `readUTF` always read all they need
(`fully`).

`Follows` compares a reader of a whole input with one of chunks: from the same bytes the second
returns what the first returns. It holds of `readChunk` where every call delivers all it can
(`follows_readChunk`), and composes along `bind`.
-/

namespace Wire

open Java

variable {α β : Type}

/-- How many bytes a call of `read(byte[])` delivers: of the calls so far, the length of the array
and the bytes that are left. -/
structure Chunking where
  count : ℕ → ℕ → ℕ → ℕ
  /-- A call delivers something, where there is something to deliver. -/
  pos : ∀ calls len left, 0 < len → 0 < left → 0 < count calls len left
  /-- It does not deliver more than the array takes. -/
  le_len : ∀ calls len left, count calls len left ≤ len
  /-- It does not deliver more than there is. -/
  le_left : ∀ calls len left, count calls len left ≤ left

namespace Chunking

/-- Every call delivers all it can. -/
def full : Chunking where
  count _ len left := min len left
  pos _ _ _ hlen hleft := lt_min hlen hleft
  le_len _ _ _ := min_le_left _ _
  le_left _ _ _ := min_le_right _ _

/-- One call delivers a single byte, and every other call all it can. -/
def shortAt (call : ℕ) : Chunking where
  count calls len left := if calls = call then min 1 (min len left) else min len left
  pos _ _ _ hlen hleft := by
    split
    · exact lt_min Nat.one_pos (lt_min hlen hleft)
    · exact lt_min hlen hleft
  le_len _ _ _ := by
    split
    · exact (min_le_right _ _).trans (min_le_left _ _)
    · exact min_le_left _ _
  le_left _ _ _ := by
    split
    · exact (min_le_right _ _).trans (min_le_right _ _)
    · exact min_le_right _ _

theorem shortAt_self {call len left : ℕ} (hlen : 0 < len) (hleft : 0 < left) :
    (shortAt call).count call len left = 1 := by
  have hle : 1 ≤ min len left := le_min hlen hleft
  exact (if_pos rfl).trans (min_eq_left hle)

theorem shortAt_of_ne {call calls len left : ℕ} (h : calls ≠ call) (hle : len ≤ left) :
    (shortAt call).count calls len left = len := by
  exact (if_neg h).trans (min_eq_left hle)

end Chunking

/-- An input, after some calls of `read(byte[])`. -/
structure Input where
  calls : ℕ
  bytes : List UInt8
  deriving DecidableEq

/-- A reader of an input that delivers in chunks. -/
abbrev ChunkReader (α : Type) := StateT Input Option α

/-- What the reader returns for these bytes. -/
def ChunkReader.value (r : ChunkReader α) (bytes : List UInt8) : Option α :=
  (r.run ⟨0, bytes⟩).map Prod.fst

/-- A read that does not depend on the chunks. -/
def fully (r : Reader α) : ChunkReader α := fun input =>
  (r.run input.bytes).map fun read => (read.1, ⟨input.calls, read.2⟩)

/-- `read(bytes)` into a new array of length `n`, whose result is not looked at. -/
def readChunk (c : Chunking) (n : ℕ) : ChunkReader (List UInt8) := fun input =>
  let count := c.count input.calls n input.bytes.length
  some (input.bytes.take count ++ List.replicate (n - count) 0,
    ⟨input.calls + 1, input.bytes.drop count⟩)

/-- Whatever the chunks, a reader returns this value for these bytes. -/
def ChunkFree (r : Chunking → ChunkReader α) (bytes : List UInt8) (a : α) : Prop :=
  ∀ c, (r c).value bytes = some a

theorem ChunkReader.run_bind_of_some {r : ChunkReader α} {f : α → ChunkReader β} {a : α}
    {input input' : Input} (h : r.run input = some (a, input')) :
    (r >>= f).run input = (f a).run input' := by
  rw [StateT.run_bind, h]
  rfl

theorem fully_run (r : Reader α) (input : Input) : (fully r).run input =
    (r.run input.bytes).map fun read => (read.1, ⟨input.calls, read.2⟩) := rfl

theorem ChunkReader.value_eq_some {r : ChunkReader α} {bytes : List UInt8} {a : α} :
    r.value bytes = some a ↔ ∃ input, r.run ⟨0, bytes⟩ = some (a, input) := by
  simp [value, Option.map_eq_some_iff]

theorem ChunkReader.run_bind_eq_some {r : ChunkReader α} {f : α → ChunkReader β} {b : β}
    {input input' : Input} : (r >>= f).run input = some (b, input') ↔
      ∃ a input₁, r.run input = some (a, input₁) ∧ (f a).run input₁ = some (b, input') := by
  rw [StateT.run_bind, Option.bind_eq_bind, Option.bind_eq_some_iff, Prod.exists]

theorem ChunkReader.lift_run_eq_some {x : Option α} {a : α} {input input' : Input} :
    (StateT.lift x : ChunkReader α).run input = some (a, input') ↔
      x = some a ∧ input' = input := by
  cases x with
  | none => simp [StateT.run, StateT.lift]
  | some b => simp [StateT.run, StateT.lift, eq_comm]

theorem ChunkReader.lift_run {x : Option α} {a : α} (h : x = some a) (input : Input) :
    (StateT.lift x : ChunkReader α).run input = some (a, input) := by
  rw [h]
  rfl

theorem fully_run_of_takes {r : Reader α} {bytes : List UInt8} {a : α} (h : Takes r bytes a)
    (calls : ℕ) (rest : List UInt8) :
    (fully r).run ⟨calls, bytes ++ rest⟩ = some (a, ⟨calls, rest⟩) := by
  show (r.run (bytes ++ rest)).map _ = _
  rw [h rest]
  rfl

/-- A call delivers the first bytes of those that would fill the array. -/
theorem readChunk_run {c : Chunking} {calls count : ℕ} {bytes rest : List UInt8}
    (h : c.count calls bytes.length (bytes ++ rest).length = count) :
    (readChunk c bytes.length).run ⟨calls, bytes ++ rest⟩ =
      some (bytes.take count ++ List.replicate (bytes.length - count) 0,
        ⟨calls + 1, bytes.drop count ++ rest⟩) := by
  have hle : count ≤ bytes.length := h ▸ c.le_len _ _ _
  show some _ = _
  simp only [h, List.take_append_of_le_length hle, List.drop_append_of_le_length hle]

/-! ## Chunks that do not matter -/

/-- The reader of chunks returns what the other one returns, and leaves the same bytes. -/
def Follows (r : Reader α) (r' : ChunkReader α) : Prop :=
  ∀ calls bytes a rest, r.run bytes = some (a, rest) →
    ∃ calls', r'.run ⟨calls, bytes⟩ = some (a, ⟨calls', rest⟩)

theorem follows_fully (r : Reader α) : Follows r (fully r) := by
  intro calls bytes a rest h
  refine ⟨calls, ?_⟩
  show (r.run bytes).map _ = _
  rw [h]
  rfl

theorem Follows.pure (a : α) : Follows (Pure.pure a) (Pure.pure a) := by
  intro calls bytes a' rest h
  cases h
  exact ⟨calls, rfl⟩

theorem follows_lift {x y : Option α} (hxy : x = y) : Follows (StateT.lift x) (StateT.lift y) := by
  subst hxy
  intro calls bytes a rest h
  cases x with
  | none => cases h
  | some a =>
    cases h
    exact ⟨calls, rfl⟩

theorem Follows.bind {r : Reader α} {r' : ChunkReader α} {f : α → Reader β}
    {f' : α → ChunkReader β} (hr : Follows r r') (hf : ∀ a, Follows (f a) (f' a)) :
    Follows (r >>= f) (r' >>= f') := by
  intro calls bytes b rest h
  rw [StateT.run_bind] at h
  obtain ⟨read, hread, h⟩ := Option.bind_eq_some_iff.1 h
  obtain ⟨calls₁, hread'⟩ := hr calls bytes read.1 read.2 hread
  obtain ⟨calls₂, h'⟩ := hf read.1 calls₁ read.2 b rest h
  refine ⟨calls₂, ?_⟩
  rw [StateT.run_bind, hread']
  exact h'

/-- Where every call delivers all it can, a read gets what it asks for. -/
theorem follows_readChunk (n : ℕ) : Follows (read n) (readChunk .full n) := by
  intro calls bytes a rest h
  refine ⟨calls + 1, ?_⟩
  simp only [read, StateT.run] at h
  split at h
  · rename_i hle
    cases h
    have hcount : min n bytes.length = n := min_eq_left hle
    simp only [readChunk, Chunking.full, StateT.run, hcount, Nat.sub_self, List.replicate_zero,
      List.append_nil]
  · cases h

theorem Follows.value {r : Reader α} {r' : ChunkReader α} (h : Follows r r') {bytes : List UInt8}
    {a : α} {rest : List UInt8} (hr : r.run bytes = some (a, rest)) : r'.value bytes = some a := by
  obtain ⟨calls, hr'⟩ := h 0 bytes a rest hr
  rw [ChunkReader.value, hr']
  rfl

/-! ## A text read from the wrong place -/

theorem utf_length_le (c : UInt16) : (utf c).length ≤ 3 := by
  simp only [utf]
  split_ifs <;> simp [writeByte]

theorem flatMap_utf_length_le (s : JString) : (s.flatMap utf).length ≤ 3 * s.length := by
  induction s with
  | nil => exact Nat.le_refl _
  | cons c s ih =>
    have hc := utf_length_le c
    rw [List.flatMap_cons, List.length_append, List.length_cons]
    omega

/-- A code unit takes at least one byte. -/
theorem decodeUtf_length_le {bytes : List UInt8} {s : JString} (h : decodeUtf bytes = some s) :
    s.length ≤ bytes.length := by
  have hmap : ∀ {c : UInt16} {rest : List UInt8} {s : JString},
      (∀ {s'}, decodeUtf rest = some s' → s'.length ≤ rest.length) →
      (decodeUtf rest).map (c :: ·) = some s → s.length ≤ rest.length + 1 := by
    intro c rest s ih hs
    obtain ⟨s', hs', rfl⟩ := Option.map_eq_some_iff.1 hs
    exact Nat.succ_le_succ (ih hs')
  fun_induction decodeUtf bytes generalizing s with
  | case1 =>
    cases h
    exact Nat.le_refl _
  | case2 a rest ha ih => exact hmap ih h
  | case3 a ha => cases h
  | case4 a ha b rest hb => cases h
  | case5 a ha b rest hb hab ih => exact (hmap ih h).trans (Nat.le_succ _)
  | case6 a ha b hb hab => cases h
  | case7 a ha b hb hab c rest hc ih => exact (hmap ih h).trans (Nat.le_add_right _ 2)
  | case8 a ha b hb hab c rest hc => cases h

/-- The length field of the empty text. -/
theorem readUTF_zero (rest : List UInt8) : readUTF.run (0 :: 0 :: rest) = some ([], rest) := by
  have h := takes_readUTF (s := []) rfl rest
  exact h

/-- The number of bytes that are read as a text is in the first two. -/
theorem length_le_of_readUTF {s : JString} {a : UInt8} {bytes rest : List UInt8}
    (h : readUTF.run (0 :: a :: bytes) = some (s, rest)) : s.length ≤ a.toNat := by
  have hshort : readUnsignedShort.run (0 :: a :: bytes) = some (a.toNat, bytes) := by
    simp [readUnsignedShort, readUnsignedByte, StateT.run, bind, StateT.bind, Pure.pure,
      StateT.pure]
  rw [readUTF, StateT.run_bind, hshort] at h
  simp only [Option.bind_eq_bind, Option.bind_some, StateT.run_bind] at h
  obtain ⟨read', hread, hdecode⟩ := Option.bind_eq_some_iff.1 h
  simp only [read, StateT.run] at hread
  split at hread
  · cases hread
    obtain ⟨text, htext, hs⟩ := Option.bind_eq_some_iff.1 hdecode
    cases hs
    have hlength := decodeUtf_length_le htext
    rw [List.length_take] at hlength
    exact hlength.trans (min_le_left _ _)
  · cases hread

/-- The empty text is read back from in front of which zeros are left. -/
theorem readUTF_of_zeros {bytes : List UInt8} (h : ∀ b ∈ bytes, b = 0)
    (hlength : 2 ≤ bytes.length) : ∃ rest, readUTF.run bytes = some ([], rest) := by
  obtain ⟨n, hn⟩ := Nat.exists_eq_add_of_le' hlength
  have hbytes : bytes = List.replicate (n + 2) 0 := List.eq_replicate_iff.2 ⟨hn, h⟩
  refine ⟨List.replicate n 0, ?_⟩
  rw [hbytes, List.replicate_succ, List.replicate_succ, readUTF_zero]

/-- A text is not read back from in front of which zeros are left, unless it is empty: the first
byte of its length is then the second one of the length that is read, which is too small. -/
theorem eq_nil_of_readUTF {s : JString} {bytes rest : List UInt8} {n : ℕ} (hn : 0 < n)
    (hw : writeUTF s = some bytes)
    (h : readUTF.run (List.replicate n 0 ++ bytes) = some (s, rest)) : s = [] := by
  obtain _ | _ | m := n
  · exact absurd hn (Nat.lt_irrefl _)
  · unfold writeUTF at hw
    simp only at hw
    split at hw
    · rename_i hfits
      rw [Option.some.injEq] at hw
      rw [← hw] at h
      have hbound := length_le_of_readUTF h
      have hbytes := flatMap_utf_length_le s
      have hbyte : (UInt8.ofNat ((s.flatMap utf).length / 2 ^ 8)).toNat =
          (s.flatMap utf).length / 2 ^ 8 := by
        have hlt : (s.flatMap utf).length / 2 ^ 8 < UInt8.size := by
          show _ < 2 ^ 8
          omega
        exact UInt8.toNat_ofNat_of_lt hlt
      rw [hbyte] at hbound
      exact List.length_eq_zero_iff.1 (by omega)
    · cases hw
  · rw [List.replicate_succ, List.replicate_succ, List.cons_append, List.cons_append,
      readUTF_zero] at h
    rw [Option.some.injEq, Prod.mk.injEq] at h
    exact h.1.symm

end Wire
