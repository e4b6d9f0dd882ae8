import Hacep.Lib.Lts

/-!
# Runs that come to an end

Where the steps of a kind take something away from what is left, and other steps add to it no more
than their actions bring, a run has no more steps of the kind than there was at the start and has
been brought (`countP_le`). Where all steps do, that bounds the length of the run (`length_le`).
Where besides a step that brings no work is possible as long as there is work left, nothing is ever
stuck: every run can be continued, without bringing work, to a state in which no work is left
(`exists_finish`), and since the continuation is bounded too, whichever steps are taken, it comes
there.

The steps may be those that meet a condition only, and the facts about the states are those of an
invariant.
-/

/-- Where the actions of a kind take from what is left, a run has no more of them than there was and
has been brought. -/
theorem Lts.countP_le {σ ι : Type} (L : Lts σ ι) {ok : σ → ι → Prop} {inv : σ → Prop}
    (left : σ → ℕ) (brings : ι → ℕ) (kind : ι → Bool)
    (step : ∀ {s a s'}, inv s → ok s a → L.step s a = some s' →
      inv s' ∧ left s' + (if kind a then 1 else 0) ≤ left s + brings a) {as : List ι} :
    ∀ {s s' : σ}, inv s → L.Guarded ok s as → L.exec s as = some s' →
      inv s' ∧ as.countP kind + left s' ≤ left s + (as.map brings).sum := by
  induction as with
  | nil =>
    intro s s' hs _ he
    rw [exec_nil, Option.some.injEq] at he
    subst he
    exact ⟨hs, by simp⟩
  | cons a as ih =>
    intro s s'' hs hok he
    obtain ⟨s', hstep, he'⟩ := L.exec_cons_eq_some.1 he
    obtain ⟨hinv, hlt⟩ := step hs hok.1 hstep
    obtain ⟨hinv', hle⟩ := ih hinv (hok.2 s' hstep) he'
    refine ⟨hinv', ?_⟩
    simp only [List.countP_cons, List.map_cons, List.sum_cons]
    omega

/-- Work that every step takes from. -/
structure Lts.Work {σ ι : Type} (L : Lts σ ι) (ok : σ → ι → Prop) where
  /-- What holds of the states. -/
  inv : σ → Prop
  /-- The work that is left. -/
  left : σ → ℕ
  /-- The work that an action brings. -/
  brings : ι → ℕ
  /-- A step takes from the work. -/
  step : ∀ {s a s'}, inv s → ok s a → L.step s a = some s' → inv s' ∧ left s' < left s + brings a
  /-- Where there is work left, there is a step that takes from it. -/
  next : ∀ {s}, inv s → left s ≠ 0 → ∃ a s', brings a = 0 ∧ ok s a ∧ L.step s a = some s'

namespace Lts.Work

variable {σ ι : Type} {L : Lts σ ι} {ok : σ → ι → Prop} (W : L.Work ok)

/-- A run keeps the invariant, and is no longer than the work that it has done. -/
theorem length_le {as : List ι} {s s' : σ} (hs : W.inv s) (hok : L.Guarded ok s as)
    (he : L.exec s as = some s') :
    W.inv s' ∧ as.length + W.left s' ≤ W.left s + (as.map W.brings).sum := by
  have hall := L.countP_le W.left W.brings (fun _ => true)
    (fun hs hok hstep => by simpa [Nat.succ_le_iff] using W.step hs hok hstep) hs hok he
  rwa [List.countP_true] at hall

/-- The work that is left can be done. -/
theorem exists_finish {s : σ} (hs : W.inv s) :
    ∃ as s', (∀ a ∈ as, W.brings a = 0) ∧ L.Guarded ok s as ∧ L.exec s as = some s' ∧ W.inv s' ∧
      W.left s' = 0 := by
  -- By induction on the work.
  induction hn : W.left s using Nat.strong_induction_on generalizing s with
  | h n ih =>
    by_cases hzero : W.left s = 0
    · exact ⟨[], s, fun _ h => absurd h List.not_mem_nil, trivial, rfl, hs, hzero⟩
    · obtain ⟨a, s', hbrings, hok, hstep⟩ := W.next hs hzero
      obtain ⟨hinv, hlt⟩ := W.step hs hok hstep
      rw [hbrings, Nat.add_zero, hn] at hlt
      obtain ⟨as, s'', has, hguarded, hexec, hrest⟩ := ih (W.left s') hlt hinv rfl
      refine ⟨a :: as, s'', ?_, (L.guarded_cons_iff hstep).2 ⟨hok, hguarded⟩,
        L.exec_cons_eq_some.2 ⟨s', hstep, hexec⟩, hrest⟩
      intro b hb
      rcases List.mem_cons.1 hb with rfl | hb
      · exact hbrings
      · exact has b hb

end Lts.Work

/-- A sum over a function that is changed at one place. -/
theorem Finset.sum_update_add {α β : Type} [DecidableEq α] {s : Finset α} {i : α} (hi : i ∈ s)
    (f : β → ℕ) (g : α → β) (b : β) :
    ∑ x ∈ s, f (Function.update g i b x) + f (g i) = ∑ x ∈ s, f (g x) + f b := by
  have hrest : ∑ x ∈ s.erase i, f (Function.update g i b x) = ∑ x ∈ s.erase i, f (g x) :=
    Finset.sum_congr rfl fun x hx => by rw [Function.update_of_ne (Finset.ne_of_mem_erase hx)]
  rw [← Finset.add_sum_erase s (fun x => f (Function.update g i b x)) hi,
    ← Finset.add_sum_erase s (fun x => f (g x)) hi, hrest, Function.update_self]
  omega
