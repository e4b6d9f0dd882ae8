import Mathlib
import Hacep.Lib.HashMap
import Hacep.Lib.Lts
import Hacep.Lib.Wire

/-!
# Counting days in the rules

The accumulate function of the rules that counts the days on which something happened. Its context
maps the index of a day to the number of values of that day; a value that enters the window is
accumulated, one that leaves it is reversed, and the result is the number of entries. Sessions are
marshalled with their contexts, so a context also writes and reads itself.

A history of calls determines the multiset of the live values, and the context is the tally of
their day indices (`exec_history`): that is an invariant of single calls, kept by each of the three
branches of `reverse`. Whatever follows from the multiset alone, such as that `reverse` undoes
`accumulate` in any order, is then read off the tally.

The day index is not the quotient by the length of a day. The division is rounded to hundredths of
a day before the fraction is cut off, so the values of the last five thousandths of a day have the
index of the next day (`getDays_eq`). Whether the number of indices is still the number of days
depends on how often a day that has late values has earlier ones as well, and how often the next
day has.
-/

namespace Hacep

open Java Wire

/-- `TimeUnit.DAYS.toMillis(1)`. -/
def millisPerDay : ℤ := 86400000

/-- A `java.math.BigDecimal`. -/
structure BigDecimal where
  unscaledValue : ℤ
  scale : ℕ

/-- `a.divide(b, scale, RoundingMode.HALF_UP)`, for whole numbers: to the nearest, and away from
zero where both are as near. -/
def BigDecimal.divide (a b : ℤ) (scale : ℕ) : BigDecimal where
  unscaledValue :=
    let n := a * 10 ^ scale
    if 2 * |n.tmod b| < |b| then n.tdiv b else n.tdiv b + n.sign * b.sign
  scale := scale

/-- `intValue()`: the fraction is cut off, and of the whole number the low 32 bits are kept. -/
def BigDecimal.intValue (d : BigDecimal) : Int32 := Int32.ofInt (d.unscaledValue.tdiv (10 ^ d.scale))

/-- Rounding half up, where nothing is negative. -/
theorem BigDecimal.divide_of_nonneg {a b : ℤ} (ha : 0 ≤ a) (hb : 0 < b) (scale : ℕ) :
    (BigDecimal.divide a b scale).unscaledValue = (2 * (a * 10 ^ scale) + b) / (2 * b) := by
  have hn : 0 ≤ a * 10 ^ scale := Int.mul_nonneg ha (by positivity)
  simp only [BigDecimal.divide, Int.tmod_eq_emod_of_nonneg hn, Int.tdiv_eq_ediv_of_nonneg hn,
    abs_of_nonneg (Int.emod_nonneg _ hb.ne'), abs_of_pos hb, Int.sign_eq_one_of_pos hb, mul_one]
  generalize a * 10 ^ scale = n at hn
  have hdiv : b * (n / b) + n % b = n := Int.mul_ediv_add_emod n b
  have hrem : 0 ≤ n % b ∧ n % b < b := ⟨Int.emod_nonneg n hb.ne', Int.emod_lt_of_pos n hb⟩
  have h2b : 0 < 2 * b := by omega
  by_cases hlow : 2 * (n % b) < b
  · -- Half of the divisor more is still less than the next multiple.
    have huniq := (Int.ediv_emod_unique h2b (a := 2 * n + b) (r := 2 * (n % b) + b)
      (q := n / b)).2 ⟨by linear_combination 2 * hdiv, by omega, by omega⟩
    rw [if_pos hlow]
    exact huniq.1.symm
  · have hsign : n.sign = 1 := by
      refine Int.sign_eq_one_of_pos (lt_of_le_of_ne hn ?_)
      rintro rfl
      rw [Int.zero_emod] at hlow
      omega
    have huniq := (Int.ediv_emod_unique h2b (a := 2 * n + b) (r := 2 * (n % b) - b)
      (q := n / b + 1)).2 ⟨by linear_combination 2 * hdiv, by omega, by omega⟩
    rw [if_neg hlow, hsign]
    exact huniq.1.symm

/-- A context, in which `none` is the field's `null`. -/
structure ConsecutiveDaysBuckets where
  buckets : Option (HashMap Int32 Int32)

namespace ConsecutiveDays

/-- The index of a value's day. -/
def getDays (value : Int64) : Int32 := (BigDecimal.divide value.toInt millisPerDay 2).intValue

/-- A new context. -/
def createContext : ConsecutiveDaysBuckets := ⟨none⟩

/-- `init`, whatever the context was. -/
def init (_context : ConsecutiveDaysBuckets) : ConsecutiveDaysBuckets := ⟨some HashMap.empty⟩

/-- A value is counted. -/
def accumulate (context : ConsecutiveDaysBuckets) (value : Int64) :
    Option ConsecutiveDaysBuckets := do
  let buckets ← context.buckets
  let days := getDays value
  match buckets.get days with
  | none => return ⟨some (← buckets.put days 1)⟩
  | some count => return ⟨some (← buckets.put days (count + 1))⟩

/-- A value is not counted any more. -/
def reverse (context : ConsecutiveDaysBuckets) (value : Int64) :
    Option ConsecutiveDaysBuckets := do
  let buckets ← context.buckets
  let days := getDays value
  match buckets.get days with
  | none => return context
  | some count =>
    if count = 1 then return ⟨some (buckets.remove days)⟩
    else return ⟨some (← buckets.put days (count - 1))⟩

/-- The number of days. -/
def getResult (context : ConsecutiveDaysBuckets) : Option Int32 := context.buckets.map HashMap.size

/-- The loop of `writeExternal`. A key without a count would be a `null` that is unboxed. -/
def writeEntries (buckets : HashMap Int32 Int32) : List Int32 → Option (List UInt8)
  | [] => some []
  | key :: keys => do
    let count ← buckets.get key
    let rest ← writeEntries buckets keys
    return writeInt key ++ writeInt count ++ rest

/-- `writeExternal`, for the order in which the key set is iterated. -/
def writeExternal (context : ConsecutiveDaysBuckets) (keySet : List Int32) :
    Option (List UInt8) := do
  let buckets ← context.buckets
  return writeInt buckets.size ++ (← writeEntries buckets keySet)

/-- The loop of `readExternal`. -/
def readEntries : ℕ → HashMap Int32 Int32 → Reader (HashMap Int32 Int32)
  | 0, buckets => pure buckets
  | n + 1, buckets => do
    let key ← readInt
    let count ← readInt
    let buckets' ← StateT.lift (buckets.put key count)
    readEntries n buckets'

/-- `readExternal`. -/
def readExternal : Reader ConsecutiveDaysBuckets := do
  let size ← readInt
  let buckets ← readEntries size.toNatClampNeg HashMap.empty
  return ⟨some buckets⟩

/-! ## Histories -/

/-- The calls that change a context. -/
inductive Call
  | accumulate (value : Int64)
  | reverse (value : Int64)
  deriving DecidableEq, Repr

/-- The context through a history of calls. -/
def contexts : Lts ConsecutiveDaysBuckets Call where
  step
    | context, .accumulate value => accumulate context value
    | context, .reverse value => reverse context value

/-- The live values through a history of calls: they are fewer than `2^31`, and only a live value is
reversed. -/
def histories : Lts (Multiset Int64) Call where
  step
    | live, .accumulate value =>
      if (value ::ₘ live).card < 2 ^ 31 then some (value ::ₘ live) else none
    | live, .reverse value => if value ∈ live then some (live.erase value) else none

section Steps

variable {live live' : Multiset Int64} {buckets : HashMap Int32 Int32} {value : Int64}

/-- What a call does to the live values. -/
theorem step_cases {call : Call} (h : histories.step live call = some live') :
    (∃ value, call = .accumulate value ∧ live' = value ::ₘ live ∧ live'.card < 2 ^ 31) ∨
      ∃ value, call = .reverse value ∧ value ∈ live ∧ live' = live.erase value := by
  cases call with
  | accumulate value =>
    simp only [histories, Option.ite_none_right_eq_some, Option.some.injEq] at h
    obtain ⟨hcard, rfl⟩ := h
    exact .inl ⟨value, rfl, rfl, hcard⟩
  | reverse value =>
    simp only [histories, Option.ite_none_right_eq_some, Option.some.injEq] at h
    obtain ⟨hmem, rfl⟩ := h
    exact .inr ⟨value, rfl, hmem, rfl⟩

/-- The live values stay fewer than `2^31`. -/
theorem card_lt {history : List Call} (hlive : live.card < 2 ^ 31)
    (h : histories.exec live history = some live') : live'.card < 2 ^ 31 := by
  refine histories.exec_invariant (fun live => live.card < 2 ^ 31) ?_ hlive h
  intro live call live' hlive hstep
  obtain ⟨value, -, -, hcard⟩ | ⟨value, -, -, rfl⟩ := step_cases hstep
  · exact hcard
  · exact (Multiset.card_le_card (Multiset.erase_le value live)).trans_lt hlive

/-- An accumulated value is tallied under its day. -/
theorem accumulate_spec (h : buckets.Tallies (live.map getDays))
    (hcard : (value ::ₘ live).card < 2 ^ 31) :
    ∃ buckets', accumulate ⟨some buckets⟩ value = some ⟨some buckets'⟩ ∧
      buckets'.Tallies ((value ::ₘ live).map getDays) := by
  rw [Multiset.map_cons]
  cases hget : buckets.get (getDays value) with
  | none =>
    have hcard' : (getDays value ::ₘ live.map getDays).card < 2 ^ 31 := by
      rwa [← Multiset.map_cons, Multiset.card_map]
    obtain ⟨buckets', hput, htally⟩ := h.put_one hget hcard'
    refine ⟨buckets', ?_, htally⟩
    simp only [accumulate, Option.bind_eq_bind, Option.bind_some, hget, hput]
    rfl
  | some count =>
    obtain ⟨buckets', hput, htally⟩ := h.put_succ hget
    refine ⟨buckets', ?_, htally⟩
    simp only [accumulate, Option.bind_eq_bind, Option.bind_some, hget, hput]
    rfl

/-- A reversed value is taken off the tally of its day. -/
theorem reverse_spec (h : buckets.Tallies (live.map getDays)) (hmem : value ∈ live)
    (hcard : live.card < 2 ^ 31) :
    ∃ buckets', reverse ⟨some buckets⟩ value = some ⟨some buckets'⟩ ∧
      buckets'.Tallies ((live.erase value).map getDays) := by
  rw [Multiset.map_erase_of_mem getDays live hmem]
  cases hget : buckets.get (getDays value) with
  | none =>
    -- A live value has its day tallied.
    have hcount := HashMap.tally_eq_none.1 ((h _).symm.trans hget)
    exact absurd (Multiset.mem_map_of_mem getDays hmem) (Multiset.count_eq_zero.1 hcount)
  | some count =>
    by_cases hone : count = 1
    · subst hone
      refine ⟨buckets.remove (getDays value), ?_, h.remove hget (by rwa [Multiset.card_map])⟩
      simp only [reverse, Option.bind_eq_bind, Option.bind_some, hget, if_true]
      rfl
    · obtain ⟨buckets', hput, htally⟩ := h.put_pred hget hone
      refine ⟨buckets', ?_, htally⟩
      simp only [reverse, Option.bind_eq_bind, Option.bind_some, hget, hone, if_false, hput]
      rfl

end Steps

/-- A context that tallies the live values does so after every history. -/
theorem exec_tallies {history : List Call} {live : Multiset Int64} :
    ∀ {buckets : HashMap Int32 Int32} {start : Multiset Int64},
      buckets.Tallies (start.map getDays) → start.card < 2 ^ 31 →
      histories.exec start history = some live →
      ∃ buckets', contexts.exec ⟨some buckets⟩ history = some ⟨some buckets'⟩ ∧
        buckets'.Tallies (live.map getDays) := by
  induction history with
  | nil =>
    intro buckets start h _ hexec
    rw [Lts.exec_nil, Option.some.injEq] at hexec
    exact ⟨buckets, rfl, hexec ▸ h⟩
  | cons call history ih =>
    intro buckets start h hcard hexec
    obtain ⟨live₁, hstep, hexec⟩ := histories.exec_cons_eq_some.1 hexec
    have hone : histories.exec start [call] = some live₁ :=
      histories.exec_cons_eq_some.2 ⟨live₁, hstep, rfl⟩
    have hcard₁ : live₁.card < 2 ^ 31 := card_lt hcard hone
    -- The call returns, and keeps the tally.
    have hcall : ∃ buckets₁, contexts.step ⟨some buckets⟩ call = some ⟨some buckets₁⟩ ∧
        buckets₁.Tallies (live₁.map getDays) := by
      obtain ⟨value, rfl, rfl, hlt⟩ | ⟨value, rfl, hmem, rfl⟩ := step_cases hstep
      · exact accumulate_spec h hlt
      · exact reverse_spec h hmem hcard
    obtain ⟨buckets₁, hcontext, h₁⟩ := hcall
    obtain ⟨buckets', hrun, h'⟩ := ih h₁ hcard₁ hexec
    exact ⟨buckets', contexts.exec_cons_eq_some.2 ⟨_, hcontext, hrun⟩, h'⟩

/-- After every history of an initialised context its map is the tally of the live values' days. -/
theorem exec_history (context : ConsecutiveDaysBuckets) {history : List Call}
    {live : Multiset Int64} (h : histories.exec 0 history = some live) :
    ∃ buckets, contexts.exec (init context) history = some ⟨some buckets⟩ ∧
      buckets.Tallies (live.map getDays) :=
  exec_tallies HashMap.Tallies.zero (by simp) h

/-! ## Reversing -/

/-- A value that is live throughout a history is live at its end. -/
theorem exec_cons_live {value : Int64} {history : List Call} :
    ∀ {start live live' : Multiset Int64}, histories.exec (value ::ₘ start) history = some live →
      histories.exec start history = some live' → live = value ::ₘ live' := by
  induction history with
  | nil =>
    intro start live live' h h'
    rw [Lts.exec_nil, Option.some.injEq] at h h'
    rw [← h, ← h']
  | cons call history ih =>
    intro start live live' h h'
    obtain ⟨live₁, hstep, h⟩ := histories.exec_cons_eq_some.1 h
    obtain ⟨live₁', hstep', h'⟩ := histories.exec_cons_eq_some.1 h'
    suffices hlive : live₁ = value ::ₘ live₁' by
      rw [hlive] at h
      exact ih h h'
    obtain ⟨w, rfl, rfl, -⟩ | ⟨w, rfl, hmem, rfl⟩ := step_cases hstep'
    · obtain ⟨w', hw, rfl, -⟩ | ⟨w', hw, -, -⟩ := step_cases hstep
      · cases hw
        exact Multiset.cons_swap w value start
      · cases hw
    · obtain ⟨w', hw, -, -⟩ | ⟨w', hw, -, rfl⟩ := step_cases hstep
      · cases hw
      · cases hw
        exact Multiset.erase_cons_tail_of_mem hmem

/-- An accumulated value and its reversal leave the live values as they would be without the two. -/
theorem live_without_pair {value : Int64} {before between after : List Call}
    {live live' : Multiset Int64}
    (h : histories.exec 0
      (before ++ .accumulate value :: (between ++ .reverse value :: after)) = some live)
    (h' : histories.exec 0 (before ++ (between ++ after)) = some live') : live = live' := by
  rw [Lts.exec_append, Option.bind_eq_some_iff] at h h'
  obtain ⟨start, hbefore, h⟩ := h
  obtain ⟨start', hbefore', h'⟩ := h'
  obtain rfl : start' = start := Option.some.inj (hbefore'.symm.trans hbefore)
  -- Between the two calls the value is live beside everything else.
  obtain ⟨start₁, hstep, h⟩ := histories.exec_cons_eq_some.1 h
  obtain rfl : start₁ = value ::ₘ start' := by
    obtain ⟨w, hw, rfl, -⟩ | ⟨w, hw, -, -⟩ := step_cases hstep
    · cases hw
      rfl
    · cases hw
  rw [Lts.exec_append, Option.bind_eq_some_iff] at h h'
  obtain ⟨live₁, hbetween, h⟩ := h
  obtain ⟨live₁', hbetween', h'⟩ := h'
  have hlive : live₁ = value ::ₘ live₁' := exec_cons_live hbetween hbetween'
  -- The reversal takes it away again, and the rest of the history is the same.
  obtain ⟨live₂, hreverse, h⟩ := histories.exec_cons_eq_some.1 h
  obtain rfl : live₂ = live₁' := by
    obtain ⟨w, hw, -, -⟩ | ⟨w, hw, -, rfl⟩ := step_cases hreverse
    · cases hw
    · cases hw
      rw [hlive, Multiset.erase_cons_head]
  exact Option.some.inj (h.symm.trans h')

/-- The map of a context depends on the live values only: it maps the indices of their days to the
numbers of live values, and no count is zero or negative. Two histories with the same live values
give the same map, and so does a history without an accumulated value and its reversal. -/
theorem buckets_of_live (context : ConsecutiveDaysBuckets) {history : List Call}
    {live : Multiset Int64} (h : histories.exec 0 history = some live) :
    ∃ buckets, contexts.exec (init context) history = some ⟨some buckets⟩ ∧
      (∀ day count, buckets.get day = some count ↔ (∃ value ∈ live, getDays value = day) ∧
        count.toInt = (live.filter fun value => getDays value = day).card) ∧
      (∀ day count, buckets.get day = some count → 0 < count.toInt) ∧
      (∀ context' history', histories.exec 0 history' = some live →
        contexts.exec (init context') history' = some ⟨some buckets⟩) ∧
      ∀ before value between after,
        history = before ++ .accumulate value :: (between ++ .reverse value :: after) →
        (histories.exec 0 (before ++ (between ++ after))).isSome →
        contexts.exec (init context) (before ++ (between ++ after)) = some ⟨some buckets⟩ := by
  obtain ⟨buckets, hexec, htally⟩ := exec_history context h
  have hcard : live.card < 2 ^ 31 := card_lt (by simp) h
  have hcount : ∀ day, (live.map getDays).count day < 2 ^ 31 := fun day =>
    ((Multiset.count_le_card day _).trans_eq (Multiset.card_map _ _)).trans_lt hcard
  have hfilter : ∀ day, (live.map getDays).count day =
      (live.filter fun value => getDays value = day).card := fun day => by
    simp only [Multiset.count_map, eq_comm]
  -- A tally is determined by the live values.
  have hsame : ∀ context' history', histories.exec 0 history' = some live →
      contexts.exec (init context') history' = some ⟨some buckets⟩ := fun context' history' h' => by
    obtain ⟨buckets', hexec', htally'⟩ := exec_history context' h'
    rw [hexec', htally'.unique htally]
  refine ⟨buckets, hexec, fun day count => ?_, fun day count hget => ?_, hsame, ?_⟩
  · have hmem : (∃ value ∈ live, getDays value = day) ↔ (live.map getDays).count day ≠ 0 := by
      rw [Multiset.count_ne_zero, Multiset.mem_map]
    rw [htally day, HashMap.tally_eq_some, hmem, ← hfilter day]
    refine and_congr_right fun _ => ?_
    rw [← Int32.toInt_inj, Int32.toInt_ofNat_of_lt (hcount day)]
  · exact HashMap.tally_pos ((htally day).symm.trans hget) (hcount day)
  · rintro before value between after rfl hwithout
    obtain ⟨live', h'⟩ := Option.isSome_iff_exists.1 hwithout
    rw [live_without_pair h h'] at hsame
    exact hsame context _ h'

/-- A value is reversed that was not the last one accumulated. -/
theorem buckets_of_live_reversed : ∃ buckets,
    contexts.exec (init createContext) [.accumulate 5, .accumulate 90000000, .reverse 5] =
      some ⟨some buckets⟩ ∧ buckets.get (getDays 90000000) = some 1 := by
  have hlive : histories.exec 0 [.accumulate 5, .accumulate 90000000, .reverse 5] =
      some {90000000} := by decide +kernel
  obtain ⟨buckets, hexec, hget, -⟩ := buckets_of_live createContext hlive
  exact ⟨buckets, hexec, (hget _ _).2 ⟨⟨90000000, by decide, rfl⟩, by decide +kernel⟩⟩

/-! ## Days and their indices -/

/-- The day of a value. -/
def floorDay (value : Int64) : ℤ := value.toInt / millisPerDay

/-- A value in the last five thousandths of its day, 432 seconds before midnight or less. -/
def Late (value : Int64) : Prop := 85968000 ≤ value.toInt % millisPerDay

instance (value : Int64) : Decidable (Late value) := Int.decLe _ _

/-- The index of a day is the day, or the next one for a late value. -/
theorem getDays_eq {value : Int64} (h : 0 ≤ value.toInt) :
    getDays value = Int32.ofInt (floorDay value + if Late value then 1 else 0) := by
  have hround := BigDecimal.divide_of_nonneg h (show 0 < millisPerDay by decide) 2
  unfold getDays BigDecimal.intValue
  rw [hround]
  congr 1
  simp only [BigDecimal.divide, floorDay, Late, millisPerDay]
  -- Half a hundredth of a day is added, and then everything below a whole day is cut off.
  rw [Int.tdiv_eq_ediv_of_nonneg (by omega)]
  split_ifs <;> omega

/-- The days with a value that is not late. -/
def earlyDays (live : Multiset Int64) : Finset ℤ :=
  ((live.filter fun value => ¬Late value).map floorDay).toFinset

/-- The days with a late value. -/
def lateDays (live : Multiset Int64) : Finset ℤ :=
  ((live.filter fun value => Late value).map floorDay).toFinset

/-- As many days have both late values and others as there are days with other values that follow a
day with late ones. -/
def LateDaysBalance (live : Multiset Int64) : Prop :=
  (earlyDays live ∩ lateDays live).card =
    (earlyDays live ∩ (lateDays live).image fun day => day + 1).card

instance (live : Multiset Int64) : Decidable (LateDaysBalance live) := Nat.decEq _ _

/-- The days of the live values. -/
theorem toFinset_floorDay (live : Multiset Int64) :
    (live.map floorDay).toFinset = earlyDays live ∪ lateDays live := by
  rw [earlyDays, lateDays, ← Multiset.toFinset_add, ← Multiset.map_add, add_comm,
    Multiset.filter_add_not]

/-- The indices of the live values. -/
theorem toFinset_getDays {live : Multiset Int64} (h : ∀ value ∈ live, 0 ≤ value.toInt) :
    (live.map getDays).toFinset =
      (earlyDays live ∪ (lateDays live).image fun day => day + 1).image Int32.ofInt := by
  ext index
  simp only [earlyDays, lateDays, Multiset.mem_toFinset, Multiset.mem_map, Finset.mem_image,
    Finset.mem_union, Multiset.mem_filter]
  constructor
  · rintro ⟨value, hmem, rfl⟩
    refine ⟨floorDay value + if Late value then 1 else 0, ?_, (getDays_eq (h value hmem)).symm⟩
    by_cases hlate : Late value
    · rw [if_pos hlate]
      exact .inr ⟨_, ⟨value, ⟨hmem, hlate⟩, rfl⟩, rfl⟩
    · rw [if_neg hlate, add_zero]
      exact .inl ⟨value, ⟨hmem, hlate⟩, rfl⟩
  · rintro ⟨day, ⟨value, ⟨hmem, hlate⟩, rfl⟩ | ⟨day, ⟨value, ⟨hmem, hlate⟩, rfl⟩, rfl⟩, rfl⟩
    · refine ⟨value, hmem, ?_⟩
      rw [getDays_eq (h value hmem), if_neg hlate, add_zero]
    · refine ⟨value, hmem, ?_⟩
      rw [getDays_eq (h value hmem), if_pos hlate]

/-- The day indices from 0 to `2^31` are different as `int`s, the last of them being negative. -/
theorem ofInt_injOn : Set.InjOn Int32.ofInt (Set.Icc 0 (2 ^ 31)) := by
  intro a ha b hb hab
  obtain ⟨ha, ha'⟩ := ha
  obtain ⟨hb, hb'⟩ := hb
  have hbmod : a.bmod Int32.size = b.bmod Int32.size := by
    rw [← Int32.toInt_ofInt, hab, Int32.toInt_ofInt]
  have hmod : a % Int32.size = b % Int32.size := by
    rw [← Int.bmod_emod, hbmod, Int.bmod_emod]
  have hsize : (Int32.size : ℤ) = 2 ^ 32 := rfl
  rw [hsize] at hmod
  omega

/-- How many indices the live values have. -/
theorem card_getDays {live : Multiset Int64}
    (h : ∀ value ∈ live, 0 ≤ value.toInt ∧ value.toInt / millisPerDay < 2 ^ 31) :
    (live.map getDays).toFinset.card =
      (earlyDays live ∪ (lateDays live).image fun day => day + 1).card := by
  rw [toFinset_getDays fun value hmem => (h value hmem).1]
  refine Finset.card_image_of_injOn (ofInt_injOn.mono ?_)
  have hday : ∀ value ∈ live, 0 ≤ floorDay value ∧ floorDay value < 2 ^ 31 := fun value hmem =>
    ⟨Int.ediv_nonneg (h value hmem).1 (by decide), (h value hmem).2⟩
  intro day hmem
  simp only [earlyDays, lateDays, Finset.coe_union, Finset.coe_image, Set.mem_union, Set.mem_image,
    Finset.mem_coe, Multiset.mem_toFinset, Multiset.mem_map, Multiset.mem_filter] at hmem
  obtain ⟨value, ⟨hmem, -⟩, rfl⟩ | ⟨day, ⟨value, ⟨hmem, -⟩, rfl⟩, rfl⟩ := hmem
  · obtain ⟨hle, hlt⟩ := hday value hmem
    exact ⟨hle, hlt.le⟩
  · obtain ⟨hle, hlt⟩ := hday value hmem
    exact ⟨by omega, by omega⟩

/-- The result of a history is the number of the live values' days exactly when the late days
balance. -/
theorem getResult_counts_days_iff (context : ConsecutiveDaysBuckets) {history : List Call}
    {live : Multiset Int64} (h : histories.exec 0 history = some live)
    (hrange : ∀ value ∈ live, 0 ≤ value.toInt ∧ value.toInt / millisPerDay < 2 ^ 31) :
    (∃ result, (contexts.exec (init context) history).bind getResult = some result ∧
        result.toInt = (live.map floorDay).toFinset.card) ↔ LateDaysBalance live := by
  obtain ⟨buckets, hexec, htally⟩ := exec_history context h
  have hresult : (contexts.exec (init context) history).bind getResult = some buckets.size := by
    rw [hexec]
    rfl
  -- Both numbers are sizes of unions: of the early days and the late ones, shifted by the index.
  have hsize := htally.toInt_size
  have hdays := congrArg Finset.card (toFinset_floorDay live)
  have hindices := card_getDays hrange
  have hshift : ((lateDays live).image fun day => day + 1).card = (lateDays live).card :=
    Finset.card_image_of_injective _ (add_left_injective 1)
  have hfloor := Finset.card_union_add_card_inter (earlyDays live) (lateDays live)
  have hround := Finset.card_union_add_card_inter (earlyDays live)
    ((lateDays live).image fun day => day + 1)
  rw [hresult, LateDaysBalance]
  constructor
  · rintro ⟨result, hsome, hcard⟩
    rw [← Option.some.inj hsome, hsize] at hcard
    omega
  · intro hbalance
    exact ⟨buckets.size, rfl, by rw [hsize]; omega⟩

/-- Ten o'clock on three days: no value is late. -/
theorem getResult_counts_days_ten_o_clock :
    ∃ result, (contexts.exec (init createContext)
      [.accumulate 36000000, .accumulate 122400000, .accumulate 208800000]).bind getResult =
        some result ∧
      result.toInt = (({36000000, 122400000, 208800000} : Multiset Int64).map floorDay).toFinset.card := by
  have hlive : histories.exec 0
      [.accumulate 36000000, .accumulate 122400000, .accumulate 208800000] =
        some {36000000, 122400000, 208800000} := by decide +kernel
  refine (getResult_counts_days_iff createContext hlive ?_).2 (by decide +kernel)
  simp only [Multiset.insert_eq_cons, Multiset.forall_mem_cons, Multiset.mem_singleton, forall_eq]
  decide +kernel

/-- Midnight and the last millisecond of the same day count as two days. -/
theorem getResult_midnight :
    histories.exec 0 [.accumulate 0, .accumulate 86399999] = some {0, 86399999} ∧
      (contexts.exec (init createContext) [.accumulate 0, .accumulate 86399999]).bind getResult =
        some 2 ∧
      (({0, 86399999} : Multiset Int64).map floorDay).toFinset.card = 1 := by
  decide +kernel

/-! ## Marshalling -/

/-- Every key has a count to write. -/
theorem writeEntries_isSome {buckets : HashMap Int32 Int32} {keys : List Int32}
    (h : ∀ key ∈ keys, key ∈ buckets.entries.keys) : ∃ bytes, writeEntries buckets keys = some bytes := by
  induction keys with
  | nil => exact ⟨[], rfl⟩
  | cons key keys ih =>
    obtain ⟨count, hcount⟩ := HashMap.mem_keys.1 (h key List.mem_cons_self)
    obtain ⟨rest, hrest⟩ := ih fun key hkey => h key (List.mem_cons_of_mem _ hkey)
    refine ⟨writeInt key ++ writeInt count ++ rest, ?_⟩
    simp only [writeEntries, hcount, hrest, Option.bind_eq_bind, Option.bind_some]
    rfl

/-- The loops of both sides agree. The reader's map has the entries of the keys that are not yet to
come. -/
theorem takes_readEntries {buckets : HashMap Int32 Int32} {keys : List Int32} :
    ∀ {read : HashMap Int32 Int32} {bytes : List UInt8}, keys.Nodup →
      (∀ key, read.get key = if key ∈ keys then none else buckets.get key) →
      writeEntries buckets keys = some bytes →
      Takes (readEntries keys.length read) bytes buckets := by
  induction keys with
  | nil =>
    intro read bytes _ hread hbytes
    obtain rfl : read = buckets := HashMap.ext_get fun key => by
      rw [hread key, if_neg List.not_mem_nil]
    cases hbytes
    exact Takes.pure read
  | cons key keys ih =>
    intro read bytes hnodup hread hbytes
    obtain ⟨hnew, hnodup⟩ := List.nodup_cons.1 hnodup
    simp only [writeEntries, Option.bind_eq_bind, Option.bind_eq_some_iff] at hbytes
    obtain ⟨count, hcount, rest, hrest, hbytes⟩ := hbytes
    cases hbytes
    -- There is room for the key: the reader's keys are among those of the map that was written.
    have hsub : insert key read.entries.keys ⊆ buckets.entries.keys := by
      intro key' hkey'
      obtain rfl | hkey' := Finset.mem_insert.1 hkey'
      · exact HashMap.mem_keys.2 ⟨count, hcount⟩
      · obtain ⟨count', hcount'⟩ := HashMap.mem_keys.1 hkey'
        rw [hread key'] at hcount'
        split at hcount'
        · cases hcount'
        · exact HashMap.mem_keys.2 ⟨count', hcount'⟩
    obtain ⟨read', hput⟩ := HashMap.put_isSome (v := count)
      ((Finset.card_le_card hsub).trans_lt buckets.size_lt)
    have hread' : ∀ key', read'.get key' = if key' ∈ keys then none else buckets.get key' := by
      intro key'
      rw [HashMap.get_put hput key', hread key']
      by_cases hkey' : key' = key
      · rw [if_pos hkey', hkey', if_neg hnew, hcount]
      · simp only [List.mem_cons, hkey', false_or, if_false]
    have hloop := (takes_lift hput).bind (ih hnodup hread' hrest)
    rw [List.append_assoc]
    exact (takes_readInt key).bind ((takes_readInt count).bind hloop)

/-- A context that is written, whatever the order of its keys, is read back: the reader takes the
bytes that were written and nothing else, and the context it returns gives the results of the
original one after every further history of calls. -/
theorem takes_readExternal {buckets : HashMap Int32 Int32} {keySet : List Int32}
    (h : buckets.KeyOrder keySet) :
    ∃ bytes, writeExternal ⟨some buckets⟩ keySet = some bytes ∧
      Takes readExternal bytes ⟨some buckets⟩ ∧
      ∀ rest restored left, readExternal.run (bytes ++ rest) = some (restored, left) →
        left = rest ∧ restored = ⟨some buckets⟩ ∧ ∀ history,
          (contexts.exec restored history).bind getResult =
            (contexts.exec ⟨some buckets⟩ history).bind getResult := by
  obtain ⟨hnodup, hkeys⟩ := h
  obtain ⟨entries, hentries⟩ : ∃ entries, writeEntries buckets keySet = some entries :=
    writeEntries_isSome fun key => (hkeys key).1
  have hlength : buckets.size.toNatClampNeg = keySet.length := by
    have hset : keySet.toFinset = buckets.entries.keys := by
      ext key
      rw [List.mem_toFinset, hkeys key]
    rw [HashMap.size, Int32.toNatClampNeg_ofNat_of_lt buckets.size_lt, ← hset,
      List.toFinset_card_of_nodup hnodup]
  have hempty : ∀ key, (HashMap.empty : HashMap Int32 Int32).get key =
      if key ∈ keySet then none else buckets.get key := by
    intro key
    rw [HashMap.get_empty]
    split
    · rfl
    · by_contra hget
      obtain ⟨count, hcount⟩ := Option.ne_none_iff_exists'.1 (Ne.symm hget)
      exact ‹key ∉ keySet› ((hkeys key).2 (HashMap.mem_keys.2 ⟨count, hcount⟩))
  have htakes : Takes readExternal (writeInt buckets.size ++ entries) ⟨some buckets⟩ := by
    have hloop := (takes_readEntries hnodup hempty hentries).bind_pure
      fun buckets => (⟨some buckets⟩ : ConsecutiveDaysBuckets)
    rw [← hlength] at hloop
    exact (takes_readInt buckets.size).bind hloop
  refine ⟨_, ?_, htakes, ?_⟩
  · simp only [writeExternal, hentries, Option.bind_eq_bind, Option.bind_some]
    rfl
  · intro rest restored left hread
    rw [htakes rest, Option.some.injEq, Prod.mk.injEq] at hread
    obtain ⟨rfl, rfl⟩ := hread
    exact ⟨rfl, rfl, fun _ => rfl⟩

/-- Two days, written the later one first. -/
theorem takes_readExternal_two : ∃ buckets : HashMap Int32 Int32,
    buckets.get 3 = some 1 ∧ buckets.get 5 = some 2 ∧
      ∃ bytes, writeExternal ⟨some buckets⟩ [5, 3] = some bytes ∧
        Takes readExternal bytes ⟨some buckets⟩ := by
  let buckets : HashMap Int32 Int32 := ⟨(Finmap.singleton 3 1).insert 5 2, by decide +kernel⟩
  obtain ⟨bytes, hbytes, htakes, -⟩ :=
    takes_readExternal (show buckets.KeyOrder [5, 3] by decide +kernel)
  exact ⟨buckets, by decide +kernel, by decide +kernel, bytes, hbytes, htakes⟩

end ConsecutiveDays

end Hacep
