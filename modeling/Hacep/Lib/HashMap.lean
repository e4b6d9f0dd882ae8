import Mathlib

/-!
# Java's hash maps

A `java.util.HashMap` is what its callers see of it: a finite map, which equals another one that
holds the same entries. Its `size()` is an `int`, so a map holds fewer than `2^31` entries and
carries that bound; a `put` for which there is no room throws, which is `none`. The order in which
`keySet()` is iterated is not a function of the entries: it is some list of the keys, each of them
once (`HashMap.KeyOrder`).

`HashMap.Tallies m s` says that a map to `int` counts holds how often each key occurs in the
multiset `s`, and no other key. Such a map is determined by the multiset, has as many entries as
the multiset has distinct members, and follows it through the four ways in which a count is kept:
a first occurrence, one more, one less, and the last one gone.
-/

namespace Java

/-- A `java.util.HashMap`. -/
structure HashMap (K V : Type) where
  entries : Finmap fun _ : K => V
  size_lt : entries.keys.card < 2 ^ 31

namespace HashMap

variable {K V : Type} [DecidableEq K]

/-- `new HashMap<>()`. -/
def empty : HashMap K V := ⟨∅, by simp⟩

/-- `map.get(k)`, with `none` for `null`. -/
def get (m : HashMap K V) (k : K) : Option V := m.entries.lookup k

/-- `map.put(k, v)`. -/
def put (m : HashMap K V) (k : K) (v : V) : Option (HashMap K V) :=
  if h : (m.entries.insert k v).keys.card < 2 ^ 31 then some ⟨m.entries.insert k v, h⟩ else none

/-- `map.remove(k)`. -/
def remove (m : HashMap K V) (k : K) : HashMap K V where
  entries := m.entries.erase k
  size_lt := by
    rw [Finmap.keys_erase]
    exact (Finset.card_le_card (Finset.erase_subset k _)).trans_lt m.size_lt

/-- `map.size()`. -/
def size (m : HashMap K V) : Int32 := Int32.ofNat m.entries.keys.card

/-- The orders in which `keySet()` may be iterated. -/
def KeyOrder (m : HashMap K V) (order : List K) : Prop :=
  order.Nodup ∧ ∀ k, k ∈ order ↔ k ∈ m.entries.keys

instance (m : HashMap K V) (order : List K) : Decidable (m.KeyOrder order) :=
  decidable_of_iff (order.Nodup ∧ order.toFinset = m.entries.keys)
    (and_congr_right fun _ => by simp only [Finset.ext_iff, List.mem_toFinset])

section Entries

variable {m m' : HashMap K V} {k k' : K} {v w : V}

/-- Maps with the same entries are equal. -/
theorem ext_get (h : ∀ k, m.get k = m'.get k) : m = m' := by
  obtain ⟨entries, _⟩ := m
  obtain ⟨entries', _⟩ := m'
  obtain rfl : entries = entries' := Finmap.ext_lookup h
  rfl

@[simp]
theorem get_empty (k : K) : (empty : HashMap K V).get k = none := Finmap.lookup_empty k

/-- The keys are those at which there is a value. -/
theorem mem_keys : k ∈ m.entries.keys ↔ ∃ v, m.get k = some v :=
  Finmap.mem_keys.trans Finmap.mem_iff

omit [DecidableEq K] in
/-- The number of entries, as the `int` that `size()` returns. -/
theorem toInt_size (m : HashMap K V) : m.size.toInt = m.entries.keys.card :=
  Int32.toInt_ofNat_of_lt m.size_lt

theorem keys_insert (m : HashMap K V) (k : K) (v : V) :
    (m.entries.insert k v).keys = insert k m.entries.keys := by
  ext k'
  rw [Finmap.mem_keys, Finmap.mem_insert, Finset.mem_insert, Finmap.mem_keys]

/-- A `put` returns when there is room for its key. -/
theorem put_isSome (h : (insert k m.entries.keys).card < 2 ^ 31) : ∃ m', m.put k v = some m' := by
  rw [← keys_insert m k v] at h
  exact ⟨_, dif_pos h⟩

/-- There is room for a key that the map has. -/
theorem put_isSome_of_mem (h : m.get k = some w) : ∃ m', m.put k v = some m' := by
  apply put_isSome
  rw [Finset.insert_eq_of_mem (mem_keys.2 ⟨w, h⟩)]
  exact m.size_lt

/-- A `put` sets one entry. -/
theorem get_put (h : m.put k v = some m') (k' : K) :
    m'.get k' = if k' = k then some v else m.get k' := by
  unfold put at h
  split at h
  · cases h
    by_cases hk : k' = k
    · rw [hk, if_pos rfl, get, Finmap.lookup_insert]
    · rw [if_neg hk, get, Finmap.lookup_insert_of_ne _ hk, get]
  · cases h

/-- A `remove` takes one entry away. -/
theorem get_remove (m : HashMap K V) (k k' : K) :
    (m.remove k).get k' = if k' = k then none else m.get k' := by
  by_cases hk : k' = k
  · rw [hk, if_pos rfl, get, remove, Finmap.lookup_erase]
  · rw [if_neg hk, get, remove, Finmap.lookup_erase_ne hk, get]

end Entries

/-! ## Counting maps -/

/-- The entry of a key that occurs so many times. -/
def tally : ℕ → Option Int32
  | 0 => none
  | n + 1 => some (Int32.ofNat (n + 1))

/-- A map to counts holds the multiplicities of a multiset. -/
def Tallies (m : HashMap K Int32) (s : Multiset K) : Prop := ∀ k, m.get k = tally (s.count k)

theorem tally_eq_none {n : ℕ} : tally n = none ↔ n = 0 := by cases n <;> simp [tally]

theorem tally_eq_some {n : ℕ} {c : Int32} : tally n = some c ↔ n ≠ 0 ∧ c = Int32.ofNat n := by
  cases n <;> simp [tally, eq_comm]

/-- A count below `2^31` is not zero or negative. -/
theorem tally_pos {n : ℕ} {c : Int32} (h : tally n = some c) (hn : n < 2 ^ 31) : 0 < c.toInt := by
  obtain ⟨hzero, rfl⟩ := tally_eq_some.1 h
  rw [Int32.toInt_ofNat_of_lt hn]
  omega

theorem ofNat_succ (n : ℕ) : Int32.ofNat (n + 1) = Int32.ofNat n + 1 := Int32.ofNat_add n 1

theorem ofNat_pred {n : ℕ} (h : n ≠ 0) : Int32.ofNat (n - 1) = Int32.ofNat n - 1 := by
  obtain ⟨n, rfl⟩ := Nat.exists_eq_succ_of_ne_zero h
  rw [Nat.succ_eq_add_one, Nat.add_sub_cancel, ofNat_succ]
  simp

namespace Tallies

variable {m m' : HashMap K Int32} {s : Multiset K} {k : K} {n : Int32}

/-- The empty map is the tally of nothing. -/
theorem zero : (empty : HashMap K Int32).Tallies 0 := fun k => by
  rw [get_empty, Multiset.count_zero, tally]

/-- A multiset has one tally. -/
theorem unique (h : m.Tallies s) (h' : m'.Tallies s) : m = m' :=
  ext_get fun k => (h k).trans (h' k).symm

/-- The keys of a tally are the members of the multiset. -/
theorem keys_eq (h : m.Tallies s) : m.entries.keys = s.toFinset := by
  ext k
  rw [mem_keys, h k, Multiset.mem_toFinset, ← Multiset.count_ne_zero]
  simp only [tally_eq_some, exists_and_left, exists_eq, and_true]

/-- A tally has as many entries as the multiset has distinct members. -/
theorem toInt_size (h : m.Tallies s) : m.size.toInt = s.toFinset.card := by
  rw [HashMap.toInt_size, h.keys_eq]

/-- A tally in which one entry is set, for a multiset that differs in the count of one key. -/
theorem put {t : Multiset K} (h : m.Tallies s) (hput : m.put k n = some m')
    (hk : tally (t.count k) = some n) (hne : ∀ k', k' ≠ k → t.count k' = s.count k') :
    m'.Tallies t := by
  intro k'
  rw [get_put hput k']
  split
  · subst k'
    exact hk.symm
  · rw [hne k' ‹_›, h k']

/-- A first occurrence: there is room for one more key. -/
theorem put_one (h : m.Tallies s) (hk : m.get k = none) (hcard : (k ::ₘ s).card < 2 ^ 31) :
    ∃ m', m.put k 1 = some m' ∧ m'.Tallies (k ::ₘ s) := by
  have hroom : (insert k m.entries.keys).card < 2 ^ 31 := by
    rw [h.keys_eq, ← Multiset.toFinset_cons]
    exact (Multiset.toFinset_card_le _).trans_lt hcard
  obtain ⟨m', hput⟩ := put_isSome hroom
  refine ⟨m', hput, h.put hput ?_ fun k' hk' => Multiset.count_cons_of_ne hk' s⟩
  rw [h k, tally_eq_none] at hk
  rw [Multiset.count_cons_self, hk]
  rfl

/-- One more occurrence. -/
theorem put_succ (h : m.Tallies s) (hk : m.get k = some n) :
    ∃ m', m.put k (n + 1) = some m' ∧ m'.Tallies (k ::ₘ s) := by
  obtain ⟨m', hput⟩ := put_isSome_of_mem hk (v := n + 1)
  refine ⟨m', hput, h.put hput ?_ fun k' hk' => Multiset.count_cons_of_ne hk' s⟩
  rw [h k, tally_eq_some] at hk
  rw [Multiset.count_cons_self, hk.2, ← ofNat_succ]
  rfl

/-- One occurrence less, of several. -/
theorem put_pred (h : m.Tallies s) (hk : m.get k = some n) (hn : n ≠ 1) :
    ∃ m', m.put k (n - 1) = some m' ∧ m'.Tallies (s.erase k) := by
  obtain ⟨m', hput⟩ := put_isSome_of_mem hk (v := n - 1)
  refine ⟨m', hput, h.put hput ?_ fun k' hk' => Multiset.count_erase_of_ne hk' s⟩
  obtain ⟨hzero, rfl⟩ := tally_eq_some.1 (hk ▸ h k).symm
  have hone : s.count k ≠ 1 := fun h => hn (by rw [h]; rfl)
  rw [Multiset.count_erase_self, tally_eq_some, ofNat_pred hzero]
  exact ⟨by omega, rfl⟩

/-- The last occurrence is gone. -/
theorem remove (h : m.Tallies s) (hk : m.get k = some 1) (hcard : s.card < 2 ^ 31) :
    (m.remove k).Tallies (s.erase k) := by
  have hone : s.count k = 1 := by
    obtain ⟨-, hc⟩ := tally_eq_some.1 (hk ▸ h k).symm
    have hlt : s.count k < 2 ^ 31 := (Multiset.count_le_card k s).trans_lt hcard
    have : ((s.count k : ℕ) : ℤ) = 1 := by rw [← Int32.toInt_ofNat_of_lt hlt, ← hc]; rfl
    exact_mod_cast this
  intro k'
  rw [get_remove]
  split
  · subst k'
    rw [Multiset.count_erase_self, hone]
    rfl
  · rw [Multiset.count_erase_of_ne ‹_›, h k']

end Tallies

end HashMap

end Java
