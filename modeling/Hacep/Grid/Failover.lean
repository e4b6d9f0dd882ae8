import Hacep.Grid.Slot
import Hacep.Recorder

/-!
# Failover agreement

The nodes of a grid with their rules managers, and the slots of all session keys. Whichever owner is
the primary for a fact, and whatever snapshots and rules-version changes run in between, when an
insert has returned every owner of the key has the facts of all inserts, in the order of the
inserts.

`agree_of_exec` lifts the invariant of a slot to runs of the grid, and reads the recorded facts off
the actions of the run.
-/

namespace Hacep

open Java

variable {K N F : Type} [DecidableEq K] [DecidableEq N]

/-- The rules managers of the nodes, and the slots of the session keys. -/
structure Grid (K N : Type) (E : KieEngine F) where
  rules : N → RulesManager
  slot : K → Slot N E

namespace Grid

/-- An action at a key, or a rules-version change on a node. -/
inductive Action (K N F : Type)
  | key (k : K) (action : Slot.Action N F)
  | updateToVersion (node : N) (version : JString)
  deriving DecidableEq, Repr

/-- An empty cache. -/
def start {E : KieEngine F} (rules : N → RulesManager) (owners : K → Finset N) : Grid K N E :=
  ⟨rules, fun k => { owners := owners k }⟩

/-- The fact that an action brings to a key. -/
def Action.fact (k : K) : Action K N F → List F
  | .key k' action => if k' = k then action.fact else []
  | .updateToVersion _ _ => []

/-- The facts that a run brings to a key, in order. -/
def facts (k : K) (actions : List (Action K N F)) : List F := actions.flatMap (Action.fact k)

variable (E : KieEngine F) [Fact F]

/-- The grid, with one action at a time. The rules-version changes are the successful ones; they
move the live sessions of the node. -/
def lts : Lts (Grid K N E) (Action K N F) where
  step g
    | .key k action =>
      ((g.slot k).step g.rules action).map fun s => { g with slot := Function.update g.slot k s }
    | .updateToVersion node version =>
      match (g.rules node).updateToVersion E version with
      | .ok (true, rm) =>
        some ⟨Function.update g.rules node rm,
          fun k => (g.slot k).migrate node (rm.newReleaseId version)⟩
      | _ => none

variable {E} {H : FactHistory E} {g g' : Grid K N E} {rules : N → RulesManager}
  {owners : K → Finset N} {actions : List (Action K N F)}

/-- A step of the grid is a step of one slot, or a change of the live sessions of one node. -/
theorem step_eq_some {a : Action K N F} (h : (lts E).step g a = some g') :
    (∃ k action s, a = .key k action ∧ (g.slot k).step g.rules action = some s ∧
        g' = { g with slot := Function.update g.slot k s }) ∨
      ∃ node version rm, a = .updateToVersion node version ∧
        (g.rules node).updateToVersion E version = .ok (true, rm) ∧
        g' = ⟨Function.update g.rules node rm,
          fun k => (g.slot k).migrate node (rm.newReleaseId version)⟩ := by
  cases a with
  | key k action =>
    simp only [lts, Option.map_eq_some_iff] at h
    obtain ⟨s, hs, rfl⟩ := h
    exact .inl ⟨k, action, s, rfl, hs, rfl⟩
  | updateToVersion node version =>
    simp only [lts] at h
    split at h
    · cases h
      exact .inr ⟨node, version, _, rfl, ‹_›, rfl⟩
    · cases h

/-- Every slot keeps its invariant. -/
theorem step_inv {a : Action K N F} (hi : ∀ k, (g.slot k).Inv H)
    (h : (lts E).step g a = some g') (k : K) : (g'.slot k).Inv H := by
  obtain ⟨k', action, s, -, hs, rfl⟩ | ⟨node, version, rm, -, -, rfl⟩ := step_eq_some h
  · by_cases hk : k = k'
    · subst hk
      simpa using Slot.step_inv (hi k) hs
    · simpa [hk] using hi k
  · exact Slot.migrate_inv (hi k) node _

/-- A slot takes in the facts that are brought to its key, and keeps its owners. -/
theorem step_pending {a : Action K N F} (h : (lts E).step g a = some g') (k : K) :
    (g'.slot k).completed ++ (g'.slot k).pending =
        (g.slot k).completed ++ (g.slot k).pending ++ a.fact k ∧
      (g'.slot k).owners = (g.slot k).owners := by
  obtain ⟨k', action, s, rfl, hs, rfl⟩ | ⟨node, version, rm, rfl, -, rfl⟩ := step_eq_some h
  · by_cases hk : k = k'
    · subst hk
      simpa [Action.fact] using Slot.step_pending hs
    · simp [Action.fact, hk, Ne.symm hk]
  · refine ⟨?_, rfl⟩
    show (g.slot k).completed ++ ((g.slot k).migrate node _).pending = _
    rw [Slot.pending_migrate, Action.fact, List.append_nil]

/-- In a run from a grid that meets the invariant, whenever no insert is under way for a key every
owner of it has what had been inserted before and the facts of all inserts of the run, in order. -/
theorem agree_of_exec {g₀ : Grid K N E} (hi : ∀ k, (g₀.slot k).Inv H)
    (h : (lts E).exec g₀ actions = some g) {k : K} (hidle : (g.slot k).pc = .idle) {o : N}
    (ho : o ∈ (g₀.slot k).owners) :
    Entry.history H ((g.slot k).entry o) =
      (g₀.slot k).completed ++ (g₀.slot k).pending ++ facts k actions := by
  have hinv := (lts E).exec_invariant
    (fun g => (∀ k, (g.slot k).Inv H) ∧ (g.slot k).owners = (g₀.slot k).owners)
    (fun g a g' hi hs => ⟨step_inv hi.1 hs, (step_pending hs k).2.trans hi.2⟩) ⟨hi, rfl⟩ h
  have hfacts := (lts E).exec_log (fun g => (g.slot k).completed ++ (g.slot k).pending)
    (Action.fact k) (fun g a g' hs => (step_pending hs k).1) h
  have howner := (hinv.1 k).owners o (hinv.2 ▸ ho)
  simp only [Slot.OwnerInv, hidle] at howner
  rw [facts, ← hfacts, Slot.pending, hidle, List.append_nil]
  exact howner

/-- When no insert is under way for a key, every owner of it has the facts of all inserts, in the
order of the inserts. -/
theorem owners_agree (H : FactHistory E)
    (h : (lts E).exec (start rules owners) actions = some g) {k : K}
    (hidle : (g.slot k).pc = .idle) {o : N} (ho : o ∈ owners k) :
    Entry.history H ((g.slot k).entry o) = facts k actions := by
  have hstart : ∀ k, ((start rules owners : Grid K N E).slot k).Inv H :=
    fun _ => ⟨trivial, fun _ _ => rfl⟩
  exact agree_of_exec hstart h hidle ho

/-- One insert on an owner, with one other owner; the first insert of a key puts a new session. -/
def insertOn (k : K) (primary other : N) (fact : F) (first : Bool) : List (Action K N F) :=
  let create : List (Slot.Action N F) := if first then [.merge other, .commit] else []
  let insert : List (Slot.Action N F) := [.insert, .put, .merge other, .commit]
  (.get primary fact :: .resolve :: (create ++ insert)).map (.key k)

/-- Two owners take turns: an insert on the first, a snapshot of the second and an insert there, a
rules-version change and a snapshot of the first, and an insert there again. -/
def turns : List (Action Unit Bool Reading) :=
  insertOn () false true ⟨7⟩ true ++ [.key () (.snapshot true)] ++ insertOn () true false ⟨9⟩ false ++
    [.updateToVersion false (jstr "2"), .key () (.snapshot false)] ++
    insertOn () false true ⟨3⟩ false

theorem owners_agree_turns :
    ∃ g : Grid Unit Bool (recorder fun _ _ => .completed),
      (lts _).exec (start (fun _ => { Recorder.manager (jstr "1") with gridBuffer := some 0 })
        fun _ => {false, true}) turns = some g ∧
      ∀ o, Entry.history (recorderHistory _) ((g.slot ()).entry o) = [⟨7⟩, ⟨9⟩, ⟨3⟩] := by
  have hrun : ((lts (recorder fun _ _ => .completed)).exec
      (start (fun _ : Bool => { Recorder.manager (jstr "1") with gridBuffer := some 0 })
        fun _ => {false, true}) turns).any (fun g => (g.slot ()).pc.isIdle) := by
    decide +kernel
  obtain ⟨g, hg, hidle⟩ := (Option.any_eq_true _ _).1 hrun
  refine ⟨g, hg, fun o => ?_⟩
  exact owners_agree (k := ()) (recorderHistory _) hg (Pc.isIdle_iff.1 hidle) (by cases o <;> decide)

end Grid

end Hacep
