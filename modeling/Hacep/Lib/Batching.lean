import Mathlib

/-!
# Processing inputs in batches

A machine takes inputs with `act` and then digests what it has taken with `fire`. It may digest
after every input (`stepwise`), or take a batch of inputs and digest once (`batch`), batch after
batch (`batches`). The two agree on every way to cut a list of inputs into batches exactly when the
digestion of a batch absorbs an earlier digestion of its beginning, in the states that `stepwise`
reaches (`batches_eq_stepwise_iff`). Batches of one input always agree
(`batches_eq_stepwise_of_length_le_one`), and so does whatever the digestion leaves alone
(`observe_batches`).
-/

namespace Batching

variable {σ α β : Type} (act : α → σ → σ) (fire : σ → σ)

/-- Takes the inputs one by one and digests after each of them. -/
def stepwise (s : σ) (as : List α) : σ := as.foldl (fun s a => fire (act a s)) s

/-- Takes the inputs one by one and digests none of them. -/
def collect (s : σ) (as : List α) : σ := as.foldl (fun s a => act a s) s

/-- Takes a batch of inputs and digests once. Nothing happens on an empty batch. -/
def batch (s : σ) (as : List α) : σ := if as.isEmpty then s else fire (collect act s as)

/-- One batch after the other. -/
def batches (s : σ) (bs : List (List α)) : σ := bs.foldl (batch act fire) s

/-- The digestion at the end of a batch absorbs a digestion before the batch's last input. -/
def Absorbs (s : σ) : Prop :=
  ∀ (as : List α) (a : α), as ≠ [] →
    fire (act a (fire (collect act s as))) = fire (act a (collect act s as))

theorem stepwise_append (s : σ) (as bs : List α) :
    stepwise act fire s (as ++ bs) = stepwise act fire (stepwise act fire s as) bs :=
  List.foldl_append

theorem stepwise_concat (s : σ) (as : List α) (a : α) :
    stepwise act fire s (as ++ [a]) = fire (act a (stepwise act fire s as)) := by
  simp [stepwise]

theorem collect_concat (s : σ) (as : List α) (a : α) :
    collect act s (as ++ [a]) = act a (collect act s as) := by
  simp [collect]

@[simp]
theorem batch_nil (s : σ) : batch act fire s ([] : List α) = s := rfl

theorem batch_concat (s : σ) (as : List α) (a : α) :
    batch act fire s (as ++ [a]) = fire (act a (collect act s as)) := by
  simp [batch, collect_concat]

theorem batches_concat (s : σ) (bs : List (List α)) (b : List α) :
    batches act fire s (bs ++ [b]) = batch act fire (batches act fire s bs) b := by
  simp [batches]

variable {act fire}

/-- A batch is its inputs one by one where the digestion absorbs. -/
theorem batch_eq_stepwise_of_absorbs {s : σ} (h : Absorbs act fire s) (as : List α) :
    batch act fire s as = stepwise act fire s as := by
  induction as using List.reverseRecOn with
  | nil => rfl
  | append_singleton as a ih =>
    rw [batch_concat, stepwise_concat, ← ih]
    cases as with
    | nil => rfl
    | cons b bs => exact (h (b :: bs) a (by simp)).symm

/-- Cutting a list into batches of one keeps the list. -/
theorem flatten_ones (as : List α) : (as.map ([·])).flatten = as := by
  rw [← List.flatMap_def, List.flatMap_singleton']

/-- Batches agree with the inputs one by one, however the list is cut, exactly when the digestion
absorbs in every state that the inputs one by one lead to. -/
theorem batches_eq_stepwise_iff {s : σ} :
    (∀ bs : List (List α), batches act fire s bs = stepwise act fire s bs.flatten) ↔
      ∀ as : List α, Absorbs act fire (stepwise act fire s as) := by
  constructor
  · -- Cut the inputs that lead to the state into batches of one, and the rest into one batch.
    intro h as cs c hcs
    have hones : ∀ ds : List α, batches act fire s (as.map ([·]) ++ [ds]) =
        batch act fire (stepwise act fire s as) ds := by
      intro ds
      rw [batches_concat, h (as.map ([·])), flatten_ones]
    have hcut : ∀ ds : List α, batch act fire (stepwise act fire s as) ds =
        stepwise act fire (stepwise act fire s as) ds := by
      intro ds
      rw [← hones, h, ← stepwise_append, List.flatten_concat, flatten_ones]
    have hfire : batch act fire (stepwise act fire s as) cs =
        fire (collect act (stepwise act fire s as) cs) := by
      simp [batch, hcs]
    rw [← hfire, hcut cs, ← stepwise_concat act fire, ← hcut, batch_concat]
  · intro h bs
    induction bs using List.reverseRecOn with
    | nil => rfl
    | append_singleton bs b ih =>
      rw [batches_concat, ih, batch_eq_stepwise_of_absorbs (h bs.flatten), ← stepwise_append]
      simp

/-- Batches of at most one input are the inputs one by one, whatever the machine. -/
theorem batches_eq_stepwise_of_length_le_one {bs : List (List α)}
    (h : ∀ b ∈ bs, b.length ≤ 1) (s : σ) :
    batches act fire s bs = stepwise act fire s bs.flatten := by
  induction bs using List.reverseRecOn with
  | nil => rfl
  | append_singleton bs b ih =>
    have hb : b = [] ∨ ∃ a, b = [a] := by
      have := h b (by simp)
      match b, this with
      | [], _ => exact .inl rfl
      | [a], _ => exact .inr ⟨a, rfl⟩
    rw [batches_concat, ih fun b hb => h b (by simp [hb])]
    rcases hb with rfl | ⟨a, rfl⟩
    · simp
    · simp [stepwise, batch, collect]

/-- What the digestion leaves alone, and an input sets as a function of what it was, is the same
for every way to cut the inputs. -/
theorem observe_batches {obs : σ → β} {next : α → β → β} (hact : ∀ a s, obs (act a s) = next a (obs s))
    (hfire : ∀ s, obs (fire s) = obs s) (s : σ) (bs : List (List α)) :
    obs (batches act fire s bs) = obs (stepwise act fire s bs.flatten) := by
  have hcollect : ∀ (as : List α) (s t : σ), obs s = obs t →
      obs (collect act s as) = obs (stepwise act fire t as) := by
    intro as
    induction as with
    | nil => exact fun s t h => h
    | cons a as ih => exact fun s t h => ih _ _ (by rw [hact, hfire, hact, h])
  induction bs using List.reverseRecOn with
  | nil => rfl
  | append_singleton bs b ih =>
    rw [batches_concat, List.flatten_concat, stepwise_append]
    cases b with
    | nil => exact ih
    | cons a as =>
      rw [← hcollect (a :: as) _ _ ih]
      exact hfire _

end Batching
