import Hacep.Lib.Lts

/-!
# A mailbox

Messages are sent to a mailbox, and taken from it in any order. What has been taken, and what still
waits, is what has been sent: nothing is lost and nothing is taken twice (`perm`). Where every
message is sent to an empty mailbox, the messages are taken in the order in which they are sent
(`in_turn`).
-/

/-- The messages that a mailbox has been sent, those that wait, and those that have been taken. -/
structure Mailbox (α : Type) where
  sent : List α := []
  waiting : List α := []
  taken : List α := []

namespace Mailbox

variable {α : Type}

/-- What happens to a mailbox. -/
inductive Action (α : Type)
  | send (message : α)
  /-- The message at a place is taken. -/
  | take (place : ℕ)

/-- The message that an action sends. -/
def Action.sent : Action α → List α
  | .send message => [message]
  | .take _ => []

/-- A mailbox, with one action at a time. -/
def lts (α : Type) : Lts (Mailbox α) (Action α) where
  step m
    | .send message =>
      some { m with sent := m.sent ++ [message], waiting := m.waiting ++ [message] }
    | .take place =>
      match m.waiting[place]? with
      | some message => some { m with
          waiting := m.waiting.eraseIdx place, taken := m.taken ++ [message] }
      | none => none

variable {m m' : Mailbox α}

theorem take_eq_some {place : ℕ} (h : (lts α).step m (.take place) = some m') :
    ∃ message, m.waiting[place]? = some message ∧ m' = { m with
      waiting := m.waiting.eraseIdx place, taken := m.taken ++ [message] } := by
  simp only [lts] at h
  split at h <;> cases h
  exact ⟨_, ‹_›, rfl⟩

/-- Messages that are sent one after the other wait. -/
theorem exec_sends (messages : List α) : ∀ m : Mailbox α,
    (lts α).exec m (messages.map .send) = some { m with
      sent := m.sent ++ messages, waiting := m.waiting ++ messages } := by
  induction messages with
  | nil =>
    intro m
    simp only [List.map_nil, Lts.exec_nil, List.append_nil]
  | cons message messages ih =>
    intro m
    rw [List.map_cons, Lts.exec]
    simp only [lts, Option.bind_some]
    have := ih { m with sent := m.sent ++ [message], waiting := m.waiting ++ [message] }
    simpa only [List.append_assoc, List.singleton_append, lts] using this

/-- A mailbox keeps what it has been sent. -/
theorem exec_sent {as : List (Action α)} (h : (lts α).exec {} as = some m) :
    m.sent = as.flatMap Action.sent := by
  refine (lts α).exec_log sent Action.sent (fun m a m' hs => ?_) h
  cases a with
  | send message =>
    cases hs
    rfl
  | take place =>
    obtain ⟨message, -, rfl⟩ := take_eq_some hs
    exact (List.append_nil _).symm

/-- Nothing is lost, and nothing is taken twice. -/
theorem perm {as : List (Action α)} (h : (lts α).exec {} as = some m) :
    (m.taken ++ m.waiting).Perm (as.flatMap Action.sent) := by
  have hperm : (m.taken ++ m.waiting).Perm m.sent := by
    refine (lts α).exec_invariant (fun m => (m.taken ++ m.waiting).Perm m.sent) ?_ (by rfl) h
    rintro m (message | place) m' hi hs
    · cases hs
      show (m.taken ++ (m.waiting ++ [message])).Perm _
      rw [← List.append_assoc]
      exact hi.append_right _
    · obtain ⟨message, hmessage, rfl⟩ := take_eq_some hs
      obtain ⟨hplace, rfl⟩ := List.getElem?_eq_some_iff.1 hmessage
      show (m.taken ++ [_] ++ m.waiting.eraseIdx place).Perm _
      rw [List.append_assoc]
      exact ((List.getElem_cons_eraseIdx_perm hplace).append_left _).trans hi
  rwa [exec_sent h] at hperm

/-- A message is sent to an empty mailbox. -/
def InTurn (m : Mailbox α) : Action α → Prop
  | .send _ => m.waiting = []
  | .take _ => True

/-- Messages that are sent to an empty mailbox are taken in order. -/
theorem in_turn {as : List (Action α)} (hturn : (lts α).Guarded InTurn {} as)
    (h : (lts α).exec {} as = some m) : m.taken ++ m.waiting = as.flatMap Action.sent := by
  have hinv := (lts α).exec_guarded_invariant InTurn
    (fun m => m.taken ++ m.waiting = m.sent ∧ m.waiting.length ≤ 1) (fun m a m' hi hok hs => by
      obtain ⟨horder, hone⟩ := hi
      cases a with
      | send message =>
        cases hs
        have hempty : m.waiting = [] := hok
        rw [hempty, List.append_nil] at horder
        refine ⟨?_, by simp [hempty]⟩
        show m.taken ++ (m.waiting ++ [message]) = m.sent ++ [message]
        rw [hempty, horder, List.nil_append]
      | take place =>
        obtain ⟨message, hmessage, rfl⟩ := take_eq_some hs
        -- The one message that waits is taken.
        obtain ⟨hplace, rfl⟩ := List.getElem?_eq_some_iff.1 hmessage
        obtain ⟨message, hwaiting⟩ := List.length_eq_one_iff.1 (show m.waiting.length = 1 by omega)
        obtain rfl : place = 0 := by omega
        simpa [hwaiting] using horder) ⟨rfl, Nat.zero_le _⟩ hturn h
  rw [hinv.1, exec_sent h]

/-! ## A part of the messages -/

section Part

variable (p : α → Bool) {l : List α} {place : ℕ} {a : α}

/-- The place of a message among those of its kind. -/
def placeIn (l : List α) (place : ℕ) : ℕ := (l.take place).countP p

variable {p}

/-- A list around one of its places. -/
theorem split_at (hplace : place < l.length) :
    l.filter p = (l.take place).filter p ++ (l[place] :: l.drop (place + 1)).filter p := by
  rw [← List.filter_append, List.getElem_cons_drop, List.take_append_drop]

/-- Taking a message takes it from those of its kind. -/
theorem filter_eraseIdx_of_pos (h : l[place]? = some a) (ha : p a = true) :
    (l.filter p)[placeIn p l place]? = some a ∧
      (l.eraseIdx place).filter p = (l.filter p).eraseIdx (placeIn p l place) := by
  obtain ⟨hplace, rfl⟩ := List.getElem?_eq_some_iff.1 h
  have hlength : placeIn p l place = ((l.take place).filter p).length := List.countP_eq_length_filter
  rw [split_at hplace, List.filter_cons_of_pos ha, hlength, List.eraseIdx_eq_take_drop_succ,
    List.filter_append]
  simp [List.eraseIdx_append_of_length_le]

/-- Taking a message leaves those of other kinds. -/
theorem filter_eraseIdx_of_neg (h : l[place]? = some a) (ha : p a = false) :
    (l.eraseIdx place).filter p = l.filter p := by
  obtain ⟨hplace, rfl⟩ := List.getElem?_eq_some_iff.1 h
  rw [split_at hplace, List.filter_cons_of_neg (by simp [ha]), List.eraseIdx_eq_take_drop_succ,
    List.filter_append]

end Part

end Mailbox
