import Hacep.Lib.Lts

/-!
# A log with a primary and backups

The owners of a log each have a copy of it. An append is begun at one of the owners, its primary,
which any owner may be; it is published in the primary's copy, merged into the copies of the other
owners one after the other, and acknowledged when all of them have it. One append is under way at a
time. A node may become an owner, with a copy of the primary's log, and an owner may crash: its copy
is gone, and where it was the primary, its append stays where it has got to.

Nothing that is acknowledged is ever lost while an owner is left, and a copy has nothing that was
not appended, nor anything twice or out of order (`Store.Inv`, `durable`). The copies differ in
appends whose primary has crashed and in nothing else, so that they are equal where none has
(`log_of_aborted_eq_zero`).
-/

namespace PrimaryBackup

/-- Where an append is. -/
inductive Phase (N α : Type)
  | idle
  /-- The primary has begun it. -/
  | begun (primary : N) (a : α)
  /-- The primary has it, and the owners left have not. -/
  | shipping (primary : N) (a : α) (left : Finset N)

/-- The primary of the append under way. -/
def Phase.primary {N α : Type} : Phase N α → Option N
  | .idle => none
  | .begun p _ | .shipping p _ _ => some p

/-- The append under way. -/
def Phase.pending {N α : Type} : Phase N α → List α
  | .idle => []
  | .begun _ a | .shipping _ a _ => [a]

/-- The owners of a log and their copies. `acknowledged`, `begun` and `aborted` record the appends
that have been acknowledged, those that have been begun, and how many of them have lost their
primary. -/
structure Store (N α : Type) where
  owners : Finset N
  log : N → List α := fun _ => []
  phase : Phase N α := .idle
  acknowledged : List α := []
  begun : List α := []
  aborted : ℕ := 0

/-- What happens to a log. -/
inductive Action (N α : Type)
  | start (primary : N) (a : α)
  | publish
  | merge (owner : N)
  | commit
  | join (source newOwner : N)
  | crash (node : N)

/-- The append that an action begins. -/
def Action.begun {N α : Type} : Action N α → List α
  | .start _ a => [a]
  | _ => []

/-- The node that an action crashes. -/
def Action.crashes {N α : Type} : Action N α → List N
  | .crash n => [n]
  | _ => []

namespace Store

variable {N α : Type} [DecidableEq N]

/-- What a crash leaves of an append. -/
def crashPhase (n : N) : Phase N α → Phase N α
  | .idle => .idle
  | .begun p a => if p = n then .idle else .begun p a
  | .shipping p a left => if p = n then .idle else .shipping p a (left.erase n)

/-- A node crashes. -/
def crash (m : Store N α) (n : N) : Store N α :=
  { m with
    owners := m.owners.erase n
    phase := crashPhase n m.phase
    aborted := if m.phase.primary = some n then m.aborted + 1 else m.aborted }

theorem crash_idle {m : Store N α} {n : N} (h : m.phase = .idle ∨ m.phase.primary = some n) :
    (m.crash n).phase = .idle := by
  show crashPhase n m.phase = .idle
  rcases h with h | h
  · rw [h]
    rfl
  · cases hm : m.phase with
    | idle => rfl
    | begun p a | shipping p a left =>
      rw [hm] at h
      exact if_pos (Option.some.inj h)

/-- An append goes on when a node crashes that is not its primary. -/
theorem crash_begun {m : Store N α} {n p : N} {a : α} (h : m.phase = .begun p a) (hp : p ≠ n) :
    (m.crash n).phase = .begun p a := by
  show crashPhase n m.phase = _
  rw [h]
  exact if_neg hp

theorem crash_shipping {m : Store N α} {n p : N} {a : α} {left : Finset N}
    (h : m.phase = .shipping p a left) (hp : p ≠ n) :
    (m.crash n).phase = .shipping p a (left.erase n) := by
  show crashPhase n m.phase = _
  rw [h]
  exact if_neg hp

/-- The log, with one action at a time. -/
def lts (N α : Type) [DecidableEq N] : Lts (Store N α) (Action N α) where
  step m
    | .start p a =>
      match m.phase with
      | .idle =>
        if p ∈ m.owners then some { m with phase := .begun p a, begun := m.begun ++ [a] } else none
      | _ => none
    | .publish =>
      match m.phase with
      | .begun p a => some { m with
          log := Function.update m.log p (m.log p ++ [a])
          phase := .shipping p a (m.owners.erase p) }
      | _ => none
    | .merge o =>
      match m.phase with
      | .shipping p a left =>
        if o ∈ left then some { m with
          log := Function.update m.log o (m.log o ++ [a]), phase := .shipping p a (left.erase o) }
        else none
      | _ => none
    | .commit =>
      match m.phase with
      | .shipping _ a left =>
        if left = ∅ then some { m with phase := .idle, acknowledged := m.acknowledged ++ [a] }
        else none
      | _ => none
    | .join p n =>
      if p ∈ m.owners ∧ n ∉ m.owners ∧ m.phase.primary.getD p = p then
        some { m with
          owners := Insert.insert n m.owners, log := Function.update m.log n (m.log p) }
      else none
    | .crash n => some (m.crash n)

/-- A log without appends. -/
def new (owners : Finset N) : Store N α := { owners := owners }

/-- The log has everything of the one list, and nothing that is not in the other, in order. -/
def Between (low high log : List α) : Prop := low.Sublist log ∧ log.Sublist high

theorem Between.concat {low high log : List α} (h : Between low high log) (a : α) :
    Between (low ++ [a]) (high ++ [a]) (log ++ [a]) :=
  ⟨h.1.append_right [a], h.2.append_right [a]⟩

theorem Between.mono {low high high' log : List α} (h : Between low high log)
    (hhigh : high.Sublist high') : Between low high' log := ⟨h.1, h.2.trans hhigh⟩

/-- Lists of the same length leave nothing between them. -/
theorem Between.eq_of_length {low high log : List α} (h : Between low high log)
    (hlength : high.length = low.length) : log = low := by
  have hle := h.1.length_le
  have hle' := h.2.length_le
  exact (h.1.eq_of_length (by omega)).symm

/-- What an owner's copy has, at every point of an append. -/
def OwnerInv (m : Store N α) (before : List α) (o : N) : Prop :=
  match m.phase with
  | .idle => Between m.acknowledged before (m.log o)
  | .begun _ _ => Between m.acknowledged before (m.log o)
  | .shipping _ a left =>
    if o ∈ left then Between m.acknowledged before (m.log o)
    else Between (m.acknowledged ++ [a]) (before ++ [a]) (m.log o)

/-- The invariant of a log. -/
structure Inv (m : Store N α) : Prop where
  /-- Every append has been acknowledged, or is under way, or has lost its primary. -/
  count : m.begun.length = m.acknowledged.length + m.phase.pending.length + m.aborted
  /-- The primary is an owner, and has what it ships. -/
  primary : match m.phase with
    | .idle => True
    | .begun p _ => p ∈ m.owners
    | .shipping p _ left => p ∈ m.owners ∧ left ⊆ m.owners.erase p
  /-- What is acknowledged has been begun, and every copy has all of the one and no more than the
  other. -/
  owners : ∃ before, m.begun = before ++ m.phase.pending ∧ m.acknowledged.Sublist before ∧
    ∀ o ∈ m.owners, m.OwnerInv before o

variable {m m' : Store N α}

theorem inv_new (owners : Finset N) : (new owners : Store N α).Inv :=
  ⟨rfl, trivial, [], rfl, List.Sublist.refl _,
    fun _ _ => ⟨List.Sublist.refl _, List.Sublist.refl _⟩⟩

/-! ## What each action does -/

theorem start_eq_some {p : N} {a : α} (h : (lts N α).step m (.start p a) = some m') :
    m.phase = .idle ∧ p ∈ m.owners ∧
      m' = { m with phase := .begun p a, begun := m.begun ++ [a] } := by
  simp only [lts] at h
  split at h
  · split at h <;> cases h
    exact ⟨‹_›, ‹_›, rfl⟩
  · cases h

theorem publish_eq_some (h : (lts N α).step m .publish = some m') :
    ∃ p a, m.phase = .begun p a ∧ m' = { m with
      log := Function.update m.log p (m.log p ++ [a])
      phase := .shipping p a (m.owners.erase p) } := by
  simp only [lts] at h
  split at h <;> cases h
  exact ⟨_, _, ‹_›, rfl⟩

theorem merge_eq_some {o : N} (h : (lts N α).step m (.merge o) = some m') :
    ∃ p a left, m.phase = .shipping p a left ∧ o ∈ left ∧ m' = { m with
      log := Function.update m.log o (m.log o ++ [a]), phase := .shipping p a (left.erase o) } := by
  simp only [lts] at h
  split at h
  · split at h <;> cases h
    exact ⟨_, _, _, ‹_›, ‹_›, rfl⟩
  · cases h

theorem commit_eq_some (h : (lts N α).step m .commit = some m') :
    ∃ p a, m.phase = .shipping p a ∅ ∧
      m' = { m with phase := .idle, acknowledged := m.acknowledged ++ [a] } := by
  simp only [lts] at h
  split at h
  · split at h <;> cases h
    rename_i hphase hleft
    subst hleft
    exact ⟨_, _, hphase, rfl⟩
  · cases h

theorem join_eq_some {p n : N} (h : (lts N α).step m (.join p n) = some m') :
    p ∈ m.owners ∧ n ∉ m.owners ∧ m.phase.primary.getD p = p ∧ m' = { m with
      owners := Insert.insert n m.owners, log := Function.update m.log n (m.log p) } := by
  simp only [lts] at h
  split at h <;> cases h
  obtain ⟨hp, hn, hprimary⟩ := ‹_ ∧ _ ∧ _›
  exact ⟨hp, hn, hprimary, rfl⟩

/-- What an action begins is recorded, and a crash takes one append at most with it. -/
theorem step_begun {a : Action N α} (h : (lts N α).step m a = some m') :
    m'.begun = m.begun ++ a.begun ∧ m'.aborted ≤ m.aborted + a.crashes.length := by
  cases a with
  | start p a =>
    obtain ⟨-, -, rfl⟩ := start_eq_some h
    exact ⟨rfl, Nat.le_refl _⟩
  | publish =>
    obtain ⟨p, a, -, rfl⟩ := publish_eq_some h
    exact ⟨(List.append_nil _).symm, Nat.le_refl _⟩
  | merge o =>
    obtain ⟨p, a, left, -, -, rfl⟩ := merge_eq_some h
    exact ⟨(List.append_nil _).symm, Nat.le_refl _⟩
  | commit =>
    obtain ⟨p, a, -, rfl⟩ := commit_eq_some h
    exact ⟨(List.append_nil _).symm, Nat.le_refl _⟩
  | join p n =>
    obtain ⟨-, -, -, rfl⟩ := join_eq_some h
    exact ⟨(List.append_nil _).symm, Nat.le_refl _⟩
  | crash n =>
    cases h
    refine ⟨(List.append_nil _).symm, ?_⟩
    show (if m.phase.primary = some n then m.aborted + 1 else m.aborted) ≤ m.aborted + 1
    split <;> omega

/-- A run loses no more appends than it has crashes. -/
theorem exec_aborted {as : List (Action N α)} :
    ∀ {m m' : Store N α}, (lts N α).exec m as = some m' →
      m'.aborted ≤ m.aborted + (as.flatMap Action.crashes).length := by
  induction as with
  | nil =>
    intro m m' he
    rw [Lts.exec_nil, Option.some.injEq] at he
    exact he ▸ Nat.le_add_right _ _
  | cons a as ih =>
    intro m m'' he
    obtain ⟨m', hm', he'⟩ := (lts N α).exec_cons_eq_some.1 he
    have hstep := (step_begun hm').2
    have hrest := ih he'
    rw [List.flatMap_cons, List.length_append]
    omega

/-! ## The invariant -/

theorem Inv.start {p : N} {a : α} (hi : m.Inv) (h : (lts N α).step m (.start p a) = some m') :
    m'.Inv := by
  obtain ⟨hphase, hp, rfl⟩ := start_eq_some h
  obtain ⟨hcount, -, before, hbegun, hacknowledged, howners⟩ := hi
  simp only [hphase, Phase.pending, List.append_nil, List.length_nil] at hcount hbegun
  refine ⟨?_, hp, before, by rw [hbegun]; rfl, hacknowledged, fun o ho => ?_⟩
  · simp only [Phase.pending, List.length_append, List.length_singleton, hcount]
    omega
  · have := howners o ho
    simpa only [OwnerInv, hphase] using this

/-- The primary has what is appended, and waits for the other owners. -/
theorem Inv.publish (hi : m.Inv) (h : (lts N α).step m .publish = some m') : m'.Inv := by
  obtain ⟨p, a, hphase, rfl⟩ := publish_eq_some h
  obtain ⟨hcount, hprimary, before, hbegun, hacknowledged, howners⟩ := hi
  simp only [hphase, Phase.pending] at hcount hprimary hbegun
  refine ⟨hcount, ⟨hprimary, Finset.Subset.refl _⟩, before, hbegun, hacknowledged,
    fun o (ho : o ∈ m.owners) => ?_⟩
  have hold : Between m.acknowledged before (m.log o) := by
    simpa only [OwnerInv, hphase] using howners o ho
  simp only [OwnerInv]
  by_cases hop : o = p
  · rw [if_neg (by simp [hop]), hop, Function.update_self]
    exact (hop ▸ hold).concat a
  · rw [if_pos (Finset.mem_erase.2 ⟨hop, ho⟩), Function.update_of_ne hop]
    exact hold

theorem Inv.merge {o : N} (hi : m.Inv) (h : (lts N α).step m (.merge o) = some m') : m'.Inv := by
  obtain ⟨p, a, left, hphase, ho, rfl⟩ := merge_eq_some h
  obtain ⟨hcount, hprimary, before, hbegun, hacknowledged, howners⟩ := hi
  simp only [hphase, Phase.pending] at hcount hprimary hbegun
  refine ⟨hcount, ⟨hprimary.1, (Finset.erase_subset o left).trans hprimary.2⟩, before, hbegun,
    hacknowledged, fun o' ho' => ?_⟩
  have hold : if o' ∈ left then Between m.acknowledged before (m.log o')
      else Between (m.acknowledged ++ [a]) (before ++ [a]) (m.log o') := by
    simpa only [OwnerInv, hphase] using howners o' ho'
  simp only [OwnerInv]
  by_cases hoo : o' = o
  · rw [hoo, if_pos ho] at hold
    rw [if_neg (by simp [hoo]), hoo, Function.update_self]
    exact hold.concat a
  · rw [Function.update_of_ne hoo]
    simpa [Finset.mem_erase, hoo] using hold

/-- When no owner is left, every copy has what is acknowledged. -/
theorem Inv.commit (hi : m.Inv) (h : (lts N α).step m .commit = some m') : m'.Inv := by
  obtain ⟨p, a, hphase, rfl⟩ := commit_eq_some h
  obtain ⟨hcount, -, before, hbegun, hacknowledged, howners⟩ := hi
  simp only [hphase, Phase.pending, List.length_singleton] at hcount hbegun
  refine ⟨?_, trivial, before ++ [a], by rw [hbegun]; simp [Phase.pending],
    hacknowledged.append_right [a], fun o ho => ?_⟩
  · simp only [Phase.pending, List.length_append, List.length_singleton, List.length_nil, hcount,
      Nat.add_zero]
  · have := howners o ho
    simpa [OwnerInv, hphase] using this

/-- A node that becomes an owner has the copy of the primary, which waits for no delivery. -/
theorem Inv.join {p n : N} (hi : m.Inv) (h : (lts N α).step m (.join p n) = some m') : m'.Inv := by
  obtain ⟨hp, hn, hprimary, rfl⟩ := join_eq_some h
  obtain ⟨owners, log, phase, acknowledged, begun, aborted⟩ := m
  obtain ⟨hcount, hphase, before, hbegun, hacknowledged, howners⟩ := hi
  have hold : ∀ o ∈ owners, Function.update log n (log p) o = log o := by
    rintro o ho
    refine Function.update_of_ne ?_ _ _
    rintro rfl
    exact hn ho
  refine ⟨hcount, ?_, before, hbegun, hacknowledged, fun o ho => ?_⟩
  · cases phase with
    | idle => trivial
    | begun q a => exact Finset.mem_insert_of_mem hphase
    | shipping q a left =>
      exact ⟨Finset.mem_insert_of_mem hphase.1,
        hphase.2.trans (Finset.erase_subset_erase q (Finset.subset_insert n owners))⟩
  · rcases Finset.mem_insert.1 ho with rfl | ho
    · have hcopy := howners p hp
      cases phase with
      | idle | begun =>
        simp only [OwnerInv, Function.update_self]
        exact hcopy
      | shipping q a left =>
        have hqp : q = p := hprimary
        have hpl : p ∉ left := fun h => Finset.notMem_erase q owners (hqp ▸ hphase.2 h)
        have hol : o ∉ left := fun h => hn (Finset.mem_of_mem_erase (hphase.2 h))
        simp only [OwnerInv, if_neg hpl] at hcopy
        simp only [OwnerInv, if_neg hol, Function.update_self]
        exact hcopy
    · have := howners o ho
      cases phase <;> simpa only [OwnerInv, hold o ho] using this

/-- An append that loses its primary stays where it has got to. -/
theorem Inv.crash (hi : m.Inv) (n : N) : (m.crash n).Inv := by
  obtain ⟨owners, log, phase, acknowledged, begun, aborted⟩ := m
  obtain ⟨hcount, hphase, before, hbegun, hacknowledged, howners⟩ := hi
  have hmem : ∀ o ∈ owners.erase n, o ≠ n ∧ o ∈ owners := fun o ho => Finset.mem_erase.1 ho
  cases phase with
  | idle =>
    exact ⟨hcount, trivial, before, hbegun, hacknowledged,
      fun o ho => howners o (hmem o ho).2⟩
  | begun p a =>
    by_cases hpn : p = n
    · subst hpn
      refine ⟨?_, ?_, before ++ [a], ?_,
        hacknowledged.trans (List.sublist_append_left _ _), fun o ho => ?_⟩ <;>
        simp only [Store.crash, crashPhase, if_true, Phase.primary, Phase.pending, OwnerInv,
          List.append_nil, List.length_nil, List.length_singleton] at hcount hbegun ⊢
      · omega
      · exact hbegun
      · exact (howners o (hmem o ho).2).mono (List.sublist_append_left _ _)
    · refine ⟨?_, ?_, before, ?_, hacknowledged, fun o ho => ?_⟩ <;>
        simp only [Store.crash, crashPhase, if_neg hpn, Phase.primary]
      · simpa [hpn, Phase.pending] using hcount
      · exact Finset.mem_erase.2 ⟨hpn, hphase⟩
      · exact hbegun
      · exact howners o (hmem o ho).2
  | shipping p a left =>
    by_cases hpn : p = n
    · subst hpn
      refine ⟨?_, ?_, before ++ [a], ?_,
        hacknowledged.trans (List.sublist_append_left _ _), fun o ho => ?_⟩ <;>
        simp only [Store.crash, crashPhase, if_true, Phase.primary, Phase.pending, OwnerInv,
          List.append_nil, List.length_nil, List.length_singleton] at hcount hbegun ⊢
      · omega
      · exact hbegun
      · -- An owner has the append, or it has not; both are within what has been begun.
        have hold := howners o (hmem o ho).2
        simp only [OwnerInv] at hold
        split at hold
        · exact hold.mono (List.sublist_append_left _ _)
        · exact ⟨(List.sublist_append_left _ _).trans hold.1, hold.2⟩
    · refine ⟨?_, ?_, before, ?_, hacknowledged, fun o ho => ?_⟩ <;>
        simp only [Store.crash, crashPhase, if_neg hpn, Phase.primary]
      · simpa [hpn, Phase.pending] using hcount
      · refine ⟨Finset.mem_erase.2 ⟨hpn, hphase.1⟩, fun o ho => ?_⟩
        obtain ⟨hon, ho⟩ := Finset.mem_erase.1 ho
        obtain ⟨hop, ho⟩ := Finset.mem_erase.1 (hphase.2 ho)
        exact Finset.mem_erase.2 ⟨hop, Finset.mem_erase.2 ⟨hon, ho⟩⟩
      · exact hbegun
      · obtain ⟨hon, ho⟩ := hmem o ho
        have hold := howners o ho
        simp only [OwnerInv] at hold ⊢
        simpa [Finset.mem_erase, hon] using hold

/-- Every action keeps the invariant. -/
theorem Inv.step {a : Action N α} (hi : m.Inv) (h : (lts N α).step m a = some m') : m'.Inv := by
  cases a with
  | start p a => exact hi.start h
  | publish => exact hi.publish h
  | merge o => exact hi.merge h
  | commit => exact hi.commit h
  | join p n => exact hi.join h
  | crash n =>
    cases h
    exact hi.crash n

/-! ## What the copies have -/

/-- Every copy has everything that is acknowledged, and nothing that has not been begun. -/
theorem Inv.between (hi : m.Inv) {o : N} (ho : o ∈ m.owners) :
    Between m.acknowledged m.begun (m.log o) := by
  obtain ⟨-, -, before, hbegun, -, howners⟩ := hi
  have hold := howners o ho
  have hbefore : before.Sublist m.begun := by
    rw [hbegun]
    exact List.sublist_append_left _ _
  unfold OwnerInv at hold
  split at hold
  · exact hold.mono hbefore
  · exact hold.mono hbefore
  · rename_i p a left hphase
    split at hold
    · exact hold.mono hbefore
    · rw [hphase] at hbegun
      exact ⟨(List.sublist_append_left _ _).trans hold.1, by rw [hbegun]; exact hold.2⟩

/-- Where no append has lost its primary, the copies have what is acknowledged, and an append under
way where it has been merged. -/
theorem Inv.log_of_aborted_eq_zero (hi : m.Inv) (h0 : m.aborted = 0) {o : N} (ho : o ∈ m.owners) :
    m.log o = match m.phase with
      | .idle | .begun _ _ => m.acknowledged
      | .shipping _ a left => if o ∈ left then m.acknowledged else m.acknowledged ++ [a] := by
  obtain ⟨hcount, -, before, hbegun, hacknowledged, howners⟩ := hi
  have hold := howners o ho
  have hlength : before.length = m.acknowledged.length := by
    rw [hbegun, List.length_append] at hcount
    omega
  unfold OwnerInv at hold
  split at hold
  · exact hold.eq_of_length hlength
  · exact hold.eq_of_length hlength
  · split at hold
    · exact (hold.eq_of_length hlength).trans (if_pos ‹_›).symm
    · have hlength' : (before ++ [‹α›]).length = (m.acknowledged ++ [‹α›]).length := by
        simp [hlength]
      exact (hold.eq_of_length hlength').trans (if_neg ‹_›).symm

/-- In every run, however often the primary changes and whichever nodes crash and join, the copy of
every owner has everything that is acknowledged and nothing but what has been begun, in order, and
at most one append for each crash is neither acknowledged nor under way. -/
theorem durable {owners : Finset N} {as : List (Action N α)} {m : Store N α}
    (h : (lts N α).exec (new owners) as = some m) {o : N} (ho : o ∈ m.owners) :
    Between m.acknowledged (as.flatMap Action.begun) (m.log o) ∧
      (as.flatMap Action.begun).length ≤
        m.acknowledged.length + m.phase.pending.length + (as.flatMap Action.crashes).length := by
  have hi : m.Inv := (lts N α).exec_invariant Inv (fun _ _ _ hi hs => hi.step hs) (inv_new owners) h
  have hbegun : m.begun = as.flatMap Action.begun :=
    (lts N α).exec_log begun Action.begun (fun _ _ _ hs => (step_begun hs).1) h
  have haborted : m.aborted ≤ 0 + (as.flatMap Action.crashes).length := exec_aborted h
  have hcount := hi.count
  rw [← hbegun]
  exact ⟨hi.between ho, by omega⟩

end Store

end PrimaryBackup
