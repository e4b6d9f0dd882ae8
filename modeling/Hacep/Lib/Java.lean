import Mathlib

/-!
# Java values and method calls

A `String` is its UTF-16 code units. A method call reads and writes the fields of its receiver
(`this`), appends to what has left the program (`out`), and ends with a value or with a
`Throwable`; an exception undoes nothing that the call wrote before it, so a call is an `EStateM`
over the receiver and the output, which keeps the state on an error.

A spec lemma about a call that is written in `do` notation takes the call apart with
`bind_eq_ok` and `bind_eq_error`, one statement after the other. Two kinds of facts about whole
calls have rules of their own, one for each way to build a call: `Keeps P m`, that `m` keeps a
property of the receiver whether it returns or throws, and `Ignores g m`, that `m` does the same
from a receiver of which `g` has changed some fields.
-/

namespace Java

/-- A `java.lang.String`: its UTF-16 code units. -/
abbrev JString := List UInt16

/-- The Java string of a text whose characters are each one UTF-16 code unit. -/
def jstr (s : String) : JString := s.toList.map fun c => c.toNat.toUInt16

/-- `s.split(sep)`, for a separator of one code unit: the empty strings at the end are dropped, and
a string without the separator is its only part. -/
def split (sep : UInt16) (s : JString) : List JString :=
  let parts := s.splitOn sep
  if parts.length = 1 then parts else parts.rdropWhile List.isEmpty

/-- The last of several parts is not empty. -/
theorem split_last_ne_nil {sep : UInt16} {s : JString} {parts : List JString} {last : JString}
    (h : split sep s = parts ++ [last]) (hparts : parts ≠ []) : last ≠ [] := by
  unfold split at h
  simp only at h
  split at h
  · -- There is one part only.
    have hlength : (s.splitOn sep).length = parts.length + 1 := by
      rw [h, List.length_append, List.length_singleton]
    exact absurd (List.length_eq_zero_iff.1 (by omega)) hparts
  · rintro rfl
    have hne : (s.splitOn sep).rdropWhile List.isEmpty ≠ [] := by
      rw [h]
      simp
    apply List.rdropWhile_last_not List.isEmpty (s.splitOn sep) hne
    simp only [h, List.getLast_append_singleton, List.isEmpty_nil]

/-- No part of a split contains the separator. -/
theorem notMem_of_mem_splitOn {sep : UInt16} {s p : JString} (h : p ∈ s.splitOn sep) : sep ∉ p := by
  induction s generalizing p with
  | nil =>
    rw [List.splitOn_nil, List.mem_singleton] at h
    rw [h]
    exact List.not_mem_nil
  | cons c s ih =>
    rw [List.splitOn_cons_eq_if_modifyHead] at h
    split at h
    · -- The separator ends an empty part.
      obtain rfl | h := List.mem_cons.1 h
      · exact List.not_mem_nil
      · exact ih h
    · obtain ⟨first, parts, hparts⟩ := List.exists_cons_of_ne_nil (List.splitOn_ne_nil sep s)
      rw [hparts, List.modifyHead_cons] at h
      obtain rfl | h := List.mem_cons.1 h
      · have hfirst : sep ∉ first := ih (hparts ▸ List.mem_cons_self)
        have hne : sep ≠ c := fun h => ‹¬(c == sep) = true› (beq_iff_eq.2 h.symm)
        simp only [List.mem_cons, not_or]
        exact ⟨hne, hfirst⟩
      · exact ih (hparts ▸ List.mem_cons_of_mem _ h)

/-- Separators at the end are empty parts. -/
theorem splitOn_append_replicate (sep : UInt16) (s : JString) (n : ℕ) :
    (s ++ List.replicate n sep).splitOn sep = s.splitOn sep ++ List.replicate n [] := by
  induction n with
  | zero => rw [List.replicate_zero, List.replicate_zero, List.append_nil, List.append_nil]
  | succ n ih =>
    rw [List.replicate_succ', List.replicate_succ', ← List.append_assoc, ← List.append_assoc,
      List.splitOn_append_cons_self, ih, List.splitOn_nil]

/-- Of a list whose last part is not empty, what stands behind that part is dropped. -/
theorem rdropWhile_append_replicate {parts : List JString} {last : JString} (h : last ≠ [])
    (n : ℕ) :
    (parts ++ [last] ++ List.replicate n []).rdropWhile List.isEmpty = parts ++ [last] := by
  induction n with
  | zero =>
    have hlast : ¬last.isEmpty = true := by rwa [List.isEmpty_iff]
    rw [List.replicate_zero, List.append_nil, List.rdropWhile_concat_neg _ _ _ hlast]
  | succ n ih =>
    rw [List.replicate_succ', ← List.append_assoc, List.rdropWhile_concat_pos _ _ _ rfl, ih]

/-- A string splits into several parts when it is these parts with separators between them, the last
of them not empty, and any number of further separators. -/
theorem split_eq_append_iff {sep : UInt16} {s : JString} {parts : List JString} {last : JString}
    (hparts : parts ≠ []) :
    split sep s = parts ++ [last] ↔ (∀ p ∈ parts ++ [last], sep ∉ p) ∧ last ≠ [] ∧
      ∃ n, s = [sep].intercalate (parts ++ [last]) ++ List.replicate n sep := by
  have hlength : ∀ n, (parts ++ [last] ++ List.replicate n []).length ≠ 1 := fun n h => by
    have hpos : 0 < parts.length := List.length_pos_iff.2 hparts
    simp only [List.length_append, List.length_singleton, List.length_replicate] at h
    omega
  have hne : parts ++ [last] ≠ [] := List.append_ne_nil_of_right_ne_nil _ (List.cons_ne_nil _ _)
  constructor
  · intro h
    have hlast := split_last_ne_nil h hparts
    unfold split at h
    simp only at h
    split at h
    · have hone : (s.splitOn sep).length = 1 := ‹_›
      have hseveral := hlength 0
      rw [List.replicate_zero, List.append_nil, ← h] at hseveral
      exact absurd hone hseveral
    · -- What has been dropped is empty parts.
      obtain ⟨n, hdropped⟩ : ∃ n, (s.splitOn sep).rtakeWhile List.isEmpty = List.replicate n [] :=
        ⟨_, List.eq_replicate_length.2 fun p hp => List.isEmpty_iff.1 (List.mem_rtakeWhile_imp hp)⟩
      have hsplit := List.rdropWhile_append_rtakeWhile (p := List.isEmpty) (l := s.splitOn sep)
      rw [h, hdropped] at hsplit
      have hpart : ∀ p ∈ parts ++ [last], sep ∉ p := fun p hp =>
        notMem_of_mem_splitOn (hsplit ▸ List.mem_append_left _ hp)
      have hwhole := splitOn_append_replicate sep ([sep].intercalate (parts ++ [last])) n
      rw [List.splitOn_intercalate sep hpart hne, hsplit] at hwhole
      have hs := congrArg [sep].intercalate hwhole
      rw [List.intercalate_splitOn, List.intercalate_splitOn] at hs
      exact ⟨hpart, hlast, n, hs.symm⟩
  · rintro ⟨hpart, hlast, n, rfl⟩
    have hsplit := splitOn_append_replicate sep ([sep].intercalate (parts ++ [last])) n
    rw [List.splitOn_intercalate sep hpart hne] at hsplit
    rw [split, hsplit, if_neg (hlength n), rdropWhile_append_replicate hlast]

/-- The exceptions of the modelled code. -/
inductive Throwable
  | nullPointerException
  | arithmeticException
  | illegalStateException (message : JString)
  | illegalArgumentException (message : JString)
  | runtimeException (cause : Throwable)
  /-- An exception that a library outside the repository throws. -/
  | external (code : ℕ)
  deriving DecidableEq, Repr

/-- The state of a method call: the receiver's fields, and what has left the program so far. -/
structure Frame (δ σ : Type) where
  this : σ
  out : List δ

/-- A method of a class whose objects have the fields `σ`, with outputs `δ`. -/
abbrev Method (δ σ α : Type) := EStateM Throwable (Frame δ σ) α

export EStateM.Result (ok error)

variable {δ σ τ α β : Type}

/-- The receiver. -/
def this : Method δ σ σ := fun fr => .ok fr.this fr

/-- An assignment to the receiver's fields. -/
def modifyThis (f : σ → σ) : Method δ σ Unit := fun fr => .ok () { fr with this := f fr.this }

/-- A call that neither reads nor writes the receiver. -/
def lift (x : Except Throwable α) : Method δ σ α := fun fr =>
  match x with
  | .ok a => .ok a fr
  | .error e => .error e fr

/-- A call on an object that only this call refers to: it returns the object as the call leaves
it, and the object is lost when the call throws. -/
def onLocal (t : τ) (m : Method δ τ Unit) : Method δ σ τ := fun fr =>
  match m ⟨t, fr.out⟩ with
  | .ok _ ⟨t', out⟩ => .ok t' { fr with out := out }
  | .error e ⟨_, out⟩ => .error e { fr with out := out }

/-- `if (c) { m }`. -/
def onlyIf (c : Bool) (m : Method δ σ Unit) : Method δ σ Unit := if c then m else pure ()

/-- `try { m } catch (Exception e) { handler }`. -/
def catching (m : Method δ σ α) (handler : Throwable → Method δ σ α) : Method δ σ α := fun fr =>
  match m fr with
  | .ok a fr' => .ok a fr'
  | .error e fr' => handler e fr'

/-- `try { m } catch (Exception e) { log } finally { f }`, for a log that goes nowhere. -/
def tryCatchFinally (m : Method δ σ Unit) (f : σ → σ) : Method δ σ Unit := fun fr =>
  match m fr with
  | .ok _ fr' => .ok () { fr' with this := f fr'.this }
  | .error _ fr' => .ok () { fr' with this := f fr'.this }

section Run

variable {fr fr' : Frame δ σ} {e : Throwable}

/-- A sequence of `Except` returns when its first part does and the rest then does. -/
theorem except_bind_eq_ok {ε : Type} {x : Except ε α} {f : α → Except ε β} {b : β} :
    (x >>= f) = .ok b ↔ ∃ a, x = .ok a ∧ f a = .ok b := by
  cases x <;> simp [bind, Except.bind]

/-- A sequence returns when its first part does and the rest then does. -/
theorem bind_eq_ok {x : Method δ σ α} {f : α → Method δ σ β} {b : β} :
    (x >>= f) fr = .ok b fr' ↔ ∃ a fr₁, x fr = .ok a fr₁ ∧ f a fr₁ = .ok b fr' := by
  show EStateM.bind x f fr = _ ↔ _
  unfold EStateM.bind
  cases x fr <;> simp

/-- A sequence throws when its first part does, or when that returns and the rest throws. -/
theorem bind_eq_error {x : Method δ σ α} {f : α → Method δ σ β} :
    (x >>= f) fr = .error e fr' ↔
      x fr = .error e fr' ∨ ∃ a fr₁, x fr = .ok a fr₁ ∧ f a fr₁ = .error e fr' := by
  show EStateM.bind x f fr = _ ↔ _
  unfold EStateM.bind
  cases x fr <;> simp

/-- A sequence whose first part returns is the rest from there. -/
theorem bind_of_ok {x : Method δ σ α} {f : α → Method δ σ β} {a : α} (h : x fr = .ok a fr') :
    (x >>= f) fr = f a fr' := by
  show EStateM.bind x f fr = _
  simp only [EStateM.bind, h]

/-- A sequence whose first part throws throws there. -/
theorem bind_of_error {x : Method δ σ α} {f : α → Method δ σ β} (h : x fr = .error e fr') :
    (x >>= f) fr = .error e fr' := by
  show EStateM.bind x f fr = _
  simp only [EStateM.bind, h]

/-- A block that returns is not handled. -/
theorem catching_of_ok {m : Method δ σ α} {handler : Throwable → Method δ σ α} {a : α}
    (h : m fr = .ok a fr') : catching m handler fr = .ok a fr' := by
  unfold catching
  rw [h]

/-- A block that throws is handled where it threw. -/
theorem catching_of_error {m : Method δ σ α} {handler : Throwable → Method δ σ α}
    (h : m fr = .error e fr') : catching m handler fr = handler e fr' := by
  unfold catching
  rw [h]

@[simp]
theorem pure_run (a : α) : (pure a : Method δ σ α) fr = .ok a fr := rfl

@[simp]
theorem throw_run (e : Throwable) : (throw e : Method δ σ α) fr = .error e fr := rfl

@[simp]
theorem this_run : (this : Method δ σ σ) fr = .ok fr.this fr := rfl

@[simp]
theorem modifyThis_run (f : σ → σ) :
    (modifyThis f : Method δ σ Unit) fr = .ok () ⟨f fr.this, fr.out⟩ := rfl

@[simp]
theorem lift_ok (a : α) : (lift (.ok a) : Method δ σ α) fr = .ok a fr := rfl

@[simp]
theorem lift_error (e : Throwable) : (lift (.error e) : Method δ σ α) fr = .error e fr := rfl

theorem lift_eq_ok {x : Except Throwable α} {a : α} :
    (lift x : Method δ σ α) fr = .ok a fr' ↔ x = .ok a ∧ fr' = fr := by
  cases x <;> simp [lift, eq_comm]

theorem lift_eq_error {x : Except Throwable α} :
    (lift x : Method δ σ α) fr = .error e fr' ↔ x = .error e ∧ fr' = fr := by
  cases x <;> simp [lift, eq_comm]

/-- A call on a local object changes no field of the receiver. -/
theorem onLocal_eq_ok {t t' : τ} {m : Method δ τ Unit} :
    (onLocal t m : Method δ σ τ) fr = .ok t' fr' ↔
      m ⟨t, fr.out⟩ = .ok () ⟨t', fr'.out⟩ ∧ fr'.this = fr.this := by
  obtain ⟨this', out'⟩ := fr'
  unfold onLocal
  rcases m ⟨t, fr.out⟩ with ⟨_, ⟨t₁, out₁⟩⟩ | ⟨_, ⟨t₁, out₁⟩⟩
  · simp only [EStateM.Result.ok.injEq, Frame.mk.injEq, true_and]
    grind
  · simp

theorem onLocal_eq_error {t : τ} {m : Method δ τ Unit} :
    (onLocal t m : Method δ σ τ) fr = .error e fr' ↔
      (∃ t', m ⟨t, fr.out⟩ = .error e ⟨t', fr'.out⟩) ∧ fr'.this = fr.this := by
  obtain ⟨this', out'⟩ := fr'
  unfold onLocal
  rcases m ⟨t, fr.out⟩ with ⟨_, ⟨t₁, out₁⟩⟩ | ⟨_, ⟨t₁, out₁⟩⟩
  · simp
  · simp only [EStateM.Result.error.injEq, Frame.mk.injEq]
    grind

@[simp]
theorem onlyIf_true (m : Method δ σ Unit) : onlyIf true m = m := rfl

@[simp]
theorem onlyIf_false (m : Method δ σ Unit) : onlyIf false m = pure () := rfl

end Run

/-! ## Rules for whole calls -/

/-- The frame that a call leaves, whether it returns or throws. -/
def finalFrame : EStateM.Result Throwable (Frame δ σ) α → Frame δ σ
  | .ok _ fr => fr
  | .error _ fr => fr

/-- The exception of a call that throws. -/
def thrown : EStateM.Result Throwable (Frame δ σ) α → Option Throwable
  | .ok _ _ => none
  | .error e _ => some e

/-- The call has returned. -/
def returned : EStateM.Result Throwable (Frame δ σ) α → Bool
  | .ok _ _ => true
  | .error _ _ => false

theorem returned_iff {result : EStateM.Result Throwable (Frame δ σ) α} :
    returned result = true ↔ ∃ a fr, result = .ok a fr := by
  cases result <;> simp [returned]

/-- The call keeps a property of the receiver, whether it returns or throws. -/
def Keeps (P : σ → Prop) (m : Method δ σ α) : Prop :=
  ∀ fr, P fr.this → P (finalFrame (m fr)).this

section Keeps

variable {P : σ → Prop}

theorem Keeps.ok {m : Method δ σ α} (h : Keeps P m) {fr fr' : Frame δ σ} {a : α}
    (hr : m fr = .ok a fr') (hp : P fr.this) : P fr'.this := by
  have := h fr hp
  rwa [hr] at this

theorem Keeps.error {m : Method δ σ α} (h : Keeps P m) {fr fr' : Frame δ σ} {e : Throwable}
    (hr : m fr = .error e fr') (hp : P fr.this) : P fr'.this := by
  have := h fr hp
  rwa [hr] at this

theorem Keeps.pure (a : α) : Keeps P (Pure.pure a : Method δ σ α) := fun _ hp => hp

theorem Keeps.lift (x : Except Throwable α) : Keeps P (lift x : Method δ σ α) := by
  intro fr hp
  cases x <;> exact hp

theorem Keeps.modifyThis {f : σ → σ} (h : ∀ s, P s → P (f s)) :
    Keeps P (modifyThis f : Method δ σ Unit) := fun _ hp => h _ hp

theorem Keeps.onLocal (t : τ) (m : Method δ τ Unit) : Keeps P (onLocal t m : Method δ σ τ) := by
  intro fr hp
  unfold Java.onLocal
  rcases m ⟨t, fr.out⟩ with ⟨_, ⟨t₁, out₁⟩⟩ | ⟨_, ⟨t₁, out₁⟩⟩ <;> exact hp

theorem Keeps.bind {x : Method δ σ α} {f : α → Method δ σ β} (hx : Keeps P x)
    (hf : ∀ a fr fr', x fr = .ok a fr' → Keeps P (f a)) : Keeps P (x >>= f) := by
  intro fr hp
  have hp' := hx fr hp
  show P (finalFrame (EStateM.bind x f fr)).this
  unfold EStateM.bind
  cases h : x fr with
  | ok a fr' =>
    rw [h] at hp'
    exact hf a fr fr' h fr' hp'
  | error e fr' =>
    rw [h] at hp'
    exact hp'

/-- The rule for the frame that one first part leaves. -/
theorem Keeps.after {x : Method δ σ α} {f : α → Method δ σ β} {fr : Frame δ σ}
    (hx : P (finalFrame (x fr)).this) (hf : ∀ a, Keeps P (f a)) :
    P (finalFrame ((x >>= f) fr)).this := by
  cases h : x fr with
  | ok a fr' =>
    rw [h] at hx
    rw [bind_of_ok h]
    exact hf a fr' hx
  | error e fr' =>
    rw [h] at hx
    rw [bind_of_error h]
    exact hx

theorem Keeps.this_bind {f : σ → Method δ σ β} (hf : ∀ s, P s → Keeps P (f s)) :
    Keeps P (this >>= f) := fun fr hp => hf fr.this hp fr hp

/-- What follows a computed value may use how it was computed. -/
theorem Keeps.lift_bind {x : Except Throwable α} {f : α → Method δ σ β}
    (hf : ∀ a, x = .ok a → Keeps P (f a)) : Keeps P (Java.lift x >>= f) :=
  (Keeps.lift x).bind fun _ _ _ h => hf _ (lift_eq_ok.1 h).1

/-- What follows a call on a local object may use what that call keeps of the object. -/
theorem Keeps.onLocal_bind {Q : τ → Prop} {t : τ} {m : Method δ τ Unit} {f : τ → Method δ σ β}
    (hm : Keeps Q m) (ht : Q t) (hf : ∀ t', Q t' → Keeps P (f t')) :
    Keeps P (Java.onLocal t m >>= f) :=
  (Keeps.onLocal t m).bind fun _ _ _ h => hf _ (hm.ok (onLocal_eq_ok.1 h).1 ht)

theorem Keeps.onlyIf (c : Bool) {m : Method δ σ Unit} (h : Keeps P m) : Keeps P (onlyIf c m) := by
  cases c
  · exact Keeps.pure ()
  · exact h

theorem Keeps.tryCatchFinally {m : Method δ σ Unit} {f : σ → σ} (hm : Keeps P m)
    (hf : ∀ s, P s → P (f s)) : Keeps P (tryCatchFinally m f) := by
  intro fr hp
  have hp' := hm fr hp
  unfold Java.tryCatchFinally
  cases h : m fr with
  | ok a fr' =>
    rw [h] at hp'
    exact hf _ hp'
  | error e fr' =>
    rw [h] at hp'
    exact hf _ hp'

end Keeps

/-- The result of a call with the receiver changed. -/
def mapThis (g : σ → σ) : EStateM.Result Throwable (Frame δ σ) α →
    EStateM.Result Throwable (Frame δ σ) α
  | .ok a fr => .ok a ⟨g fr.this, fr.out⟩
  | .error e fr => .error e ⟨g fr.this, fr.out⟩

/-- The call does the same from a receiver that `g` has changed, and leaves what `g` makes of the
receiver that it would have left. -/
def Ignores (g : σ → σ) (m : Method δ σ α) : Prop :=
  ∀ fr, m ⟨g fr.this, fr.out⟩ = mapThis g (m fr)

section Ignores

variable {g : σ → σ}

theorem Ignores.pure (a : α) : Ignores g (Pure.pure a : Method δ σ α) := fun _ => rfl

theorem Ignores.lift (x : Except Throwable α) : Ignores g (lift x : Method δ σ α) := by
  intro fr
  cases x <;> rfl

theorem Ignores.modifyThis {f : σ → σ} (h : ∀ s, f (g s) = g (f s)) :
    Ignores g (modifyThis f : Method δ σ Unit) := by
  intro fr
  rw [modifyThis_run, modifyThis_run, mapThis, h]

theorem Ignores.onLocal (t : τ) (m : Method δ τ Unit) :
    Ignores g (onLocal t m : Method δ σ τ) := by
  intro fr
  unfold Java.onLocal
  rcases m ⟨t, fr.out⟩ with ⟨_, ⟨t₁, out₁⟩⟩ | ⟨_, ⟨t₁, out₁⟩⟩ <;> rfl

theorem Ignores.bind {x : Method δ σ α} {f : α → Method δ σ β} (hx : Ignores g x)
    (hf : ∀ a, Ignores g (f a)) : Ignores g (x >>= f) := by
  intro fr
  show EStateM.bind x f _ = mapThis g (EStateM.bind x f fr)
  unfold EStateM.bind
  rw [hx fr]
  cases x fr with
  | ok a fr' => exact hf a fr'
  | error e fr' => rfl

/-- What a call reads of the receiver must not be what `g` changes. -/
theorem Ignores.this_bind {f : σ → Method δ σ β} (h : ∀ s, f (g s) = f s)
    (hf : ∀ s, Ignores g (f s)) : Ignores g (this >>= f) := by
  intro fr
  show f (g fr.this) _ = mapThis g (f fr.this fr)
  rw [h]
  exact hf fr.this fr

theorem Ignores.onlyIf (c : Bool) {m : Method δ σ Unit} (h : Ignores g m) :
    Ignores g (onlyIf c m) := by
  cases c
  · exact Ignores.pure ()
  · exact h

theorem Ignores.tryCatchFinally {m : Method δ σ Unit} {f : σ → σ} (hm : Ignores g m)
    (hf : ∀ s, f (g s) = g (f s)) : Ignores g (tryCatchFinally m f) := by
  intro fr
  unfold Java.tryCatchFinally
  rw [hm fr]
  cases m fr <;> simp only [mapThis, hf]

end Ignores

/-- The call emits nothing that the predicate holds of, whether it returns or throws. -/
def Withholds (p : δ → Bool) (m : Method δ σ α) : Prop :=
  ∀ fr, (finalFrame (m fr)).out.filter p = fr.out.filter p

section Withholds

variable {p : δ → Bool}

theorem Withholds.pure (a : α) : Withholds p (Pure.pure a : Method δ σ α) := fun _ => rfl

theorem Withholds.lift (x : Except Throwable α) : Withholds p (lift x : Method δ σ α) := by
  intro fr
  cases x <;> rfl

theorem Withholds.modifyThis (f : σ → σ) : Withholds p (modifyThis f : Method δ σ Unit) :=
  fun _ => rfl

/-- What follows a first part may use that the first part has returned. -/
theorem Withholds.bind {x : Method δ σ α} {f : α → Method δ σ β} (hx : Withholds p x)
    (hf : ∀ a fr fr', x fr = .ok a fr' → Withholds p (f a)) : Withholds p (x >>= f) := by
  intro fr
  have hout := hx fr
  show (finalFrame (EStateM.bind x f fr)).out.filter p = _
  unfold EStateM.bind
  cases h : x fr with
  | ok a fr' =>
    rw [h] at hout
    exact (hf a fr fr' h fr').trans hout
  | error e fr' =>
    rw [h] at hout
    exact hout

theorem Withholds.this_bind {f : σ → Method δ σ β} (hf : ∀ s, Withholds p (f s)) :
    Withholds p (this >>= f) := fun fr => hf fr.this fr

theorem Withholds.lift_bind {x : Except Throwable α} {f : α → Method δ σ β}
    (hf : ∀ a, x = .ok a → Withholds p (f a)) : Withholds p (Java.lift x >>= f) :=
  (Withholds.lift x).bind fun _ _ _ h => hf _ (lift_eq_ok.1 h).1

/-- A call on a local object emits what it emits in the frame of the caller. -/
theorem Withholds.onLocal {m : Method δ τ Unit} (hm : Withholds p m) (t : τ) :
    Withholds p (Java.onLocal t m : Method δ σ τ) := by
  intro fr
  have hout := hm ⟨t, fr.out⟩
  unfold Java.onLocal
  cases h : m ⟨t, fr.out⟩ with
  | ok a fr' =>
    rw [h] at hout
    exact hout
  | error e fr' =>
    rw [h] at hout
    exact hout

theorem Withholds.onlyIf (c : Bool) {m : Method δ σ Unit} (h : Withholds p m) :
    Withholds p (onlyIf c m) := by
  cases c
  · exact Withholds.pure ()
  · exact h

theorem Withholds.tryCatchFinally {m : Method δ σ Unit} (hm : Withholds p m) (f : σ → σ) :
    Withholds p (tryCatchFinally m f) := by
  intro fr
  have hout := hm fr
  unfold Java.tryCatchFinally
  cases h : m fr with
  | ok a fr' =>
    rw [h] at hout
    exact hout
  | error e fr' =>
    rw [h] at hout
    exact hout

end Withholds

end Java
