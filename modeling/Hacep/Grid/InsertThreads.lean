import Hacep.Lib.Lts
import Hacep.Lib.NamedLocks
import Hacep.Recorder
import Hacep.Session.Delta
import Hacep.Session.Failure

/-!
# Inserts side by side

`KieSessionSaver.insert` on one node, called by any number of threads with any keys and facts. Every
statement is a step: the look-up of the lock object, its creation and `putIfAbsent`, entering the
monitor, the read of the session cache, the new session and its put, the rebuild of a serialized
session, the insertion, the last put, and leaving the monitor. The sessions are objects on a heap;
the cache and the threads refer to them, and an insertion changes the object itself.

The lock objects are `LockTable`'s, so at most one thread at a time works on the session of a group.
What the thread at work may do is a fact about one insert alone, `SessionStore.body_progress`, and
what it leaves alone is another, `SessionStore.body_frame`; an object belongs to one group, that of
the insert that made it. `insert_serializable` puts them together for every run.
-/

namespace Hacep

open Java

variable {F T : Type} {E : KieEngine F}

/-- `Key`, as far as its group. -/
structure Key where
  group : JString
  deriving DecidableEq

/-- `getGroup`. -/
def Key.getGroup (key : Key) : JString := key.group

/-- A session object: one that the cache had for a group at the start, or one made since. -/
inductive Ref
  | found (group : JString)
  | made (number : ℕ)
  deriving DecidableEq

/-- The session objects of a node, the references that the session cache holds, and the number of
objects made. -/
structure SessionStore (E : KieEngine F) where
  heap : Ref → Option (DeltaAware E)
  cache : JString → Option Ref
  created : ℕ := 0

/-- Where a thread is in the `synchronized` block of `insert`. -/
inductive InsertBody
  /-- `sessionCache.get(sessionKey)`, with the tests on its value. -/
  | get
  /-- `haKieSessionBuilder.build()`. -/
  | build
  /-- `sessionCache.put(sessionKey, haKieSession)`, for the new session. -/
  | putNew (session : Ref)
  /-- `haKieSession.rebuild()`. -/
  | rebuild (session : Ref)
  /-- `haKieSession.insert(fact)`. -/
  | insert (session : Ref)
  /-- `sessionCache.put(sessionKey, haKieSession)`. -/
  | put (session : Ref)
  /-- The end of the block. -/
  | leave
  deriving DecidableEq

/-- Where a thread is in `insert`: in `getLock` or at the monitor, in the block, or through. -/
inductive InsertPc
  | locking (phase : LockPhase)
  | inside (lock : ℕ) (body : InsertBody)
  | returned
  deriving DecidableEq

/-- Where the thread is with the lock of its group. -/
def InsertPc.phase : InsertPc → LockPhase
  | .locking phase => phase
  | .inside lock _ => .hold lock
  | .returned => .done

/-- The group of an object that was found in the cache. -/
def Ref.group : Ref → JString
  | .found group => group
  | .made _ => []

namespace SessionStore

/-- What the cache holds under a group. -/
def session (s : SessionStore E) (group : JString) : Entry E := (s.cache group).bind s.heap

/-- The store before the inserts, with what the cache holds. -/
def initial (sessions : JString → Entry E) : SessionStore E where
  heap
    | .found group => sessions group
    | .made _ => none
  cache group := (sessions group).map fun _ => .found group

/-- A write to an object. -/
def set (s : SessionStore E) (r : Ref) (v : DeltaAware E) : SessionStore E :=
  { s with heap := Function.update s.heap r (some v) }

theorem set_self (s : SessionStore E) (r : Ref) (v : DeltaAware E) : (s.set r v).heap r = some v :=
  Function.update_self ..

theorem set_of_ne (s : SessionStore E) {r r' : Ref} (h : r' ≠ r) (v : DeltaAware E) :
    (s.set r v).heap r' = s.heap r' :=
  Function.update_of_ne h ..

/-- A new object. -/
def alloc (s : SessionStore E) (v : DeltaAware E) : SessionStore E :=
  { s.set (.made s.created) v with created := s.created + 1 }

/-- `sessionCache.put` of a live session: its delta is shipped, and it is committed. -/
def put (s : SessionStore E) (group : JString) (r : Ref) : Option (SessionStore E) :=
  match s.heap r with
  | some (.live h) =>
    some { s.set r (.live h.commit) with cache := Function.update s.cache group (some r) }
  | _ => none

variable [Fact F] (rm : RulesManager)

/-- `rebuild` of a serialized session, where neither it nor the snapshot it waits for throws. -/
def rebuild (v : HAKieSerializedSession F) : Option (HAKieSession E × HAKieSerializedSession F) :=
  if v.saving && !returned (HAKieSerializedSession.snapshotBody (E := E) rm ⟨v, []⟩) then none
  else
    match HAKieSerializedSession.rebuild rm ⟨v, []⟩ with
    | .ok h fr => some (h, fr.this)
    | .error _ _ => none

/-- One statement of the block, which takes the thread to the next one. A statement that throws is
not taken. -/
def body (s : SessionStore E) (group : JString) (fact : F) :
    InsertBody → Option (SessionStore E × InsertBody)
  | .get =>
    match s.cache group with
    | none => some (s, .build)
    | some r =>
      match s.heap r with
      | some (.live _) => some (s, .insert r)
      | some (.serialized _) => some (s, .rebuild r)
      -- The cache refers to objects that have been made.
      | none => none
  | .build => some (s.alloc (.live {}), .putNew (.made s.created))
  | .putNew r => (s.put group r).map fun s => (s, .insert r)
  | .rebuild r =>
    match s.heap r with
    | some (.serialized v) => (rebuild rm v).map fun (h, v) =>
      -- The live session is in no cache yet: only the thread knows it.
      ((s.set r (.serialized v)).alloc (.live h), .insert (.made s.created))
    | _ => none
  | .insert r =>
    match s.heap r with
    | some (.live h) =>
      match HAKieSession.insert rm fact ⟨h, []⟩ with
      -- What the session delivers is of no interest here.
      | .ok _ fr => some (s.set r (.live fr.this), .put r)
      | .error _ _ => none
    | _ => none
  | .put r => (s.put group r).map fun s => (s, .leave)
  | .leave => none

end SessionStore

/-! ## What a statement leaves alone -/

namespace SessionStore

variable {home home' home'' : Ref → JString} {s s' s'' : SessionStore E} {group : JString} {r : Ref}

/-- The object belongs to the group. -/
def Has (home : Ref → JString) (s : SessionStore E) (group : JString) (r : Ref) : Prop :=
  home r = group ∧ (s.heap r).isSome = true

/-- The cache refers, under every group, to an object of the group, the objects that were found
belong to the group for which they were, and the numbers that are not yet given stand for no object.
-/
structure Owned (home : Ref → JString) (s : SessionStore E) : Prop where
  cached : ∀ group r, s.cache group = some r → s.Has home group r
  found : ∀ group, home (.found group) = group
  fresh : ∀ n, s.created ≤ n → s.heap (.made n) = none

/-- Objects have been made for a group and its objects and its entry written, and nothing else has
changed. -/
structure Touches (group : JString) (home home' : Ref → JString) (s s' : SessionStore E) : Prop where
  keeps : ∀ group' r, s.Has home group' r → s'.Has home' group' r
  heap : ∀ group' r, s.Has home group' r → group' ≠ group → s'.heap r = s.heap r
  cache : ∀ group', group' ≠ group → s'.cache group' = s.cache group'

theorem Touches.rfl : Touches group home home s s :=
  ⟨fun _ _ h => h, fun _ _ _ _ => Eq.refl _, fun _ _ => Eq.refl _⟩

theorem Touches.trans (h : Touches group home home' s s') (h' : Touches group home' home'' s' s'') :
    Touches group home home'' s s'' := by
  refine ⟨fun g r hr => h'.keeps g r (h.keeps g r hr), fun g r hr hne => ?_, fun g hne => ?_⟩
  · exact (h'.heap g r (h.keeps g r hr) hne).trans (h.heap g r hr hne)
  · exact (h'.cache g hne).trans (h.cache g hne)

/-- The session of another group is the same. -/
theorem Touches.session (h : Touches group home home' s s') (hs : s.Owned home) {group' : JString}
    (hne : group' ≠ group) : s'.session group' = s.session group' := by
  unfold SessionStore.session
  rw [h.cache group' hne]
  cases hr : s.cache group' with
  | none => rfl
  | some r => exact h.heap group' r (hs.cached group' r hr) hne

/-- A write to an object of the group. -/
theorem touches_set (hr : s.Has home group r) (v : DeltaAware E) :
    Touches group home home s (s.set r v) := by
  refine ⟨fun g r' hr' => ⟨hr'.1, ?_⟩, fun g r' hr' hne => ?_, fun _ _ => rfl⟩
  · by_cases h : r' = r
    · rw [h, set_self]
      rfl
    · rw [set_of_ne s h]
      exact hr'.2
  · have h : r' ≠ r := by
      rintro rfl
      exact hne (hr'.1.symm.trans hr.1)
    exact set_of_ne s h v

theorem Owned.set (hs : s.Owned home) (hr : s.Has home group r) (v : DeltaAware E) :
    (s.set r v).Owned home := by
  refine ⟨fun g r' hr' => (touches_set hr v).keeps g r' (hs.cached g r' hr'), hs.found,
    fun n hn => ?_⟩
  have h : Ref.made n ≠ r := by
    rintro rfl
    have hnone := hs.fresh n hn
    rw [Has, hnone] at hr
    exact Bool.noConfusion hr.2
  rw [set_of_ne s h]
  exact hs.fresh n hn

/-- An object that is made for the group. -/
theorem touches_alloc (hs : s.Owned home) (v : DeltaAware E) :
    Touches group home (Function.update home (.made s.created) group) s (s.alloc v) := by
  have hold : ∀ g r', s.Has home g r' → r' ≠ .made s.created := by
    rintro g r' ⟨-, hsome⟩ rfl
    rw [hs.fresh _ (Nat.le_refl _)] at hsome
    exact Bool.noConfusion hsome
  refine ⟨fun g r' hr' => ?_, fun g r' hr' _ => ?_, fun _ _ => rfl⟩
  · have h := hold g r' hr'
    simpa [Has, alloc, set, Function.update_of_ne h] using hr'
  · simp [alloc, set, Function.update_of_ne (hold g r' hr')]

theorem Owned.alloc (hs : s.Owned home) (group : JString) (v : DeltaAware E) :
    (s.alloc v).Owned (Function.update home (.made s.created) group) ∧
      (s.alloc v).Has (Function.update home (.made s.created) group) group (.made s.created) := by
  refine ⟨⟨fun g r' hr' => (touches_alloc hs v).keeps g r' (hs.cached g r' hr'), fun g => ?_,
    fun n hn => ?_⟩, Function.update_self .., ?_⟩
  · rw [Function.update_of_ne (by simp)]
    exact hs.found g
  · have hlt : s.created + 1 ≤ n := hn
    have h : Ref.made n ≠ .made s.created := by
      rintro ⟨⟩
      omega
    simp only [SessionStore.alloc, SessionStore.set, Function.update_of_ne h]
    exact hs.fresh n (by omega)
  · simp [SessionStore.alloc, SessionStore.set]

/-- A put of an object of the group. -/
theorem touches_put (hs : s.Owned home) (hr : s.Has home group r) (hput : s.put group r = some s') :
    Touches group home home s s' ∧ s'.Owned home := by
  unfold put at hput
  split at hput <;> cases hput
  rename_i h _
  have hset := touches_set hr (.live h.commit)
  have howned := hs.set hr (.live h.commit)
  refine ⟨⟨hset.keeps, hset.heap, fun g hne => ?_⟩, fun g r' hr' => ?_, howned.found,
    howned.fresh⟩
  · exact Function.update_of_ne hne ..
  · by_cases hg : g = group
    · subst hg
      simp only [Function.update_self, Option.some.injEq] at hr'
      subst hr'
      exact hset.keeps g r hr
    · simp only [Function.update_of_ne hg] at hr'
      exact hset.keeps g r' (hs.cached g r' hr')

end SessionStore

/-- The object that a thread has at a point of the block. -/
def InsertBody.session : InsertBody → Option Ref
  | .putNew r | .rebuild r | .insert r | .put r => some r
  | .get | .build | .leave => none

namespace SessionStore

variable [Fact F] {rm : RulesManager} {home : Ref → JString} {s s' : SessionStore E}
  {group : JString} {fact : F} {b b' : InsertBody}

/-- A statement of an insert touches the group of the insert only, and leaves the thread with an
object of the group. -/
theorem body_frame (hs : s.Owned home) (hb : ∀ r, b.session = some r → s.Has home group r)
    (h : s.body rm group fact b = some (s', b')) :
    ∃ home', Touches group home home' s s' ∧ s'.Owned home' ∧
      ∀ r, b'.session = some r → s'.Has home' group r := by
  cases b with
  | get =>
    simp only [body] at h
    cases hc : s.cache group with
    | none =>
      simp only [hc, Option.some.injEq, Prod.mk.injEq] at h
      obtain ⟨rfl, rfl⟩ := h
      exact ⟨home, .rfl, hs, fun r hr => (nomatch hr)⟩
    | some r =>
      have hr := hs.cached group r hc
      simp only [hc] at h
      split at h
      · cases h
        exact ⟨home, .rfl, hs, fun r' hr' => Option.some.inj hr' ▸ hr⟩
      · cases h
        exact ⟨home, .rfl, hs, fun r' hr' => Option.some.inj hr' ▸ hr⟩
      · cases h
  | build =>
    cases h
    obtain ⟨howned, hhas⟩ := hs.alloc group (.live {})
    exact ⟨_, touches_alloc hs _, howned, fun r' hr' => Option.some.inj hr' ▸ hhas⟩
  | putNew r =>
    obtain ⟨s₁, hput, heq⟩ := Option.map_eq_some_iff.1 h
    cases heq
    obtain ⟨htouches, howned⟩ := touches_put hs (hb r rfl) hput
    exact ⟨home, htouches, howned,
      fun r' hr' => Option.some.inj hr' ▸ htouches.keeps group r (hb r rfl)⟩
  | put r =>
    obtain ⟨s₁, hput, heq⟩ := Option.map_eq_some_iff.1 h
    cases heq
    obtain ⟨htouches, howned⟩ := touches_put hs (hb r rfl) hput
    exact ⟨home, htouches, howned, fun r' hr' => (nomatch hr')⟩
  | rebuild r =>
    simp only [body] at h
    split at h
    · obtain ⟨⟨k, v⟩, -, heq⟩ := Option.map_eq_some_iff.1 h
      cases heq
      have hr := hb r rfl
      have hset := hs.set hr (.serialized v)
      obtain ⟨howned, hhas⟩ := hset.alloc group (.live k)
      -- The drained buffer is written to the serialized session, then the live one is made.
      exact ⟨_, (touches_set hr _).trans (touches_alloc hset _), howned,
        fun r' hr' => Option.some.inj hr' ▸ hhas⟩
    · cases h
  | insert r =>
    simp only [body] at h
    split at h
    · split at h
      · cases h
        have hr := hb r rfl
        exact ⟨home, touches_set hr _, hs.set hr _,
          fun r' hr' => Option.some.inj hr' ▸ (touches_set hr _).keeps group r hr⟩
      · cases h
    · cases h
  | leave => cases h

end SessionStore

/-! ## What an insert does to its session -/

namespace SessionStore

/-- Where the session of a group is, and what its history is, at every point of an insert: `before`
is the history with which the thread has found the session. -/
def Progress (H : FactHistory E) (s : SessionStore E) (group : JString) (before : List F) (fact : F) :
    InsertBody → Prop
  | .get => Entry.history H (s.session group) = before
  | .build => before = []
  | .putNew r => ∃ h, s.heap r = some (.live h) ∧ h.history H = before
  | .rebuild r => ∃ v, s.heap r = some (.serialized v) ∧ v.history H = before
  | .insert r => ∃ h, s.heap r = some (.live h) ∧ h.history H = before
  | .put r => ∃ h, s.heap r = some (.live h) ∧ h.history H = before ++ [fact]
  | .leave => Entry.history H (s.session group) = before ++ [fact]

variable {H : FactHistory E} {s s' : SessionStore E} {group : JString} {r : Ref}

/-- After a put the session of the group is the one that was put, and has its history. -/
theorem put_spec (h : s.put group r = some s') :
    ∃ k, s.heap r = some (.live k) ∧ s'.heap r = some (.live k.commit) ∧
      s'.session group = some (.live k.commit) := by
  unfold put at h
  split at h <;> cases h
  rename_i k hk
  exact ⟨k, hk, Function.update_self .., by simp [session, set]⟩

variable [Fact F] {rm : RulesManager} {before : List F} {fact : F} {b b' : InsertBody}

/-- A rebuild that does not throw returns a session with the history of the serialized one, also
where it has waited for a snapshot. -/
theorem rebuild_spec {v v' : HAKieSerializedSession F} {k : HAKieSession E}
    (h : rebuild rm v = some (k, v')) : k.history H = v.history H := by
  unfold rebuild at h
  split at h
  · cases h
  · rename_i hpending
    split at h <;> cases h
    rename_i fr hrebuild
    cases hs : v.saving with
    | false => exact HAKieSerializedSession.rebuild_ok (H := H) hs hrebuild
    | true =>
      -- The snapshot that is waited for has stored the history it found.
      rw [hs, Bool.true_and, Bool.not_eq_true, Bool.not_eq_false'] at hpending
      cases hbody : HAKieSerializedSession.snapshotBody (E := E) rm ⟨v, []⟩ with
      | error e fr₁ => rw [hbody] at hpending; cases hpending
      | ok _ fr₁ =>
        have htask := HAKieSerializedSession.snapshotTask_of_ok hbody
        rw [HAKieSerializedSession.rebuild_of_saving hs htask rfl] at hrebuild
        rw [HAKieSerializedSession.rebuild_ok (H := H) rfl hrebuild]
        exact (HAKieSerializedSession.snapshotBody_ok (H := H) hbody).1

/-- A statement of an insert takes its session one step further. -/
theorem body_progress (hp : s.Progress H group before fact b)
    (h : s.body rm group fact b = some (s', b')) : s'.Progress H group before fact b' := by
  cases b with
  | get =>
    simp only [body] at h
    cases hc : s.cache group with
    | none =>
      simp only [hc, Option.some.injEq, Prod.mk.injEq] at h
      obtain ⟨rfl, rfl⟩ := h
      -- No session in the cache is one without a history.
      have hnone : s.session group = none := by rw [session, hc]; rfl
      rw [Progress, hnone] at hp
      exact hp.symm
    | some r =>
      have hsession : s.session group = s.heap r := by rw [session, hc]; rfl
      rw [Progress, hsession] at hp
      simp only [hc] at h
      split at h
      · cases h
        rename_i k hk
        rw [hk] at hp
        exact ⟨k, hk, hp⟩
      · cases h
        rename_i v hv
        rw [hv] at hp
        exact ⟨v, hv, hp⟩
      · cases h
  | build =>
    cases h
    have hnil : before = [] := hp
    exact ⟨{}, Function.update_self .., hnil.symm⟩
  | putNew r =>
    obtain ⟨s₁, hput, heq⟩ := Option.map_eq_some_iff.1 h
    cases heq
    obtain ⟨k, hk, hk', -⟩ := put_spec hput
    obtain ⟨k₀, hk₀, hhist⟩ := hp
    rw [hk, Option.some.injEq, DeltaAware.live.injEq] at hk₀
    exact ⟨k.commit, hk', hk₀ ▸ hhist⟩
  | rebuild r =>
    obtain ⟨v, hv, hhist⟩ := hp
    simp only [body, hv] at h
    obtain ⟨⟨k, v'⟩, hk, heq⟩ := Option.map_eq_some_iff.1 h
    cases heq
    exact ⟨k, Function.update_self .., (rebuild_spec hk).trans hhist⟩
  | insert r =>
    obtain ⟨k, hk, hhist⟩ := hp
    simp only [body, hk] at h
    split at h
    · cases h
      rename_i fr hinsert
      refine ⟨fr.this, Function.update_self .., ?_⟩
      rw [(HAKieSession.insert_ok (H := H) hinsert).1, hhist]
    · cases h
  | put r =>
    obtain ⟨s₁, hput, heq⟩ := Option.map_eq_some_iff.1 h
    cases heq
    obtain ⟨k, hk, -, hsession⟩ := put_spec hput
    obtain ⟨k₀, hk₀, hhist⟩ := hp
    rw [hk, Option.some.injEq, DeltaAware.live.injEq] at hk₀
    rw [Progress, hsession, ← hhist, ← hk₀]
    rfl
  | leave => cases h

omit [Fact F] in
/-- What another insert does to its own group leaves an insert where it is. -/
theorem progress_of_touches {home home' : Ref → JString} {group' : JString}
    (h : Touches group' home home' s s') (hs : s.Owned home) (hne : group ≠ group')
    (hb : ∀ r, b.session = some r → s.Has home group r) (hp : s.Progress H group before fact b) :
    s'.Progress H group before fact b := by
  cases b with
  | get | leave => rw [Progress, h.session hs hne]; exact hp
  | build => exact hp
  | putNew r | rebuild r | insert r | put r =>
    rw [Progress, h.heap group r (hb r rfl) hne]
    exact hp

end SessionStore

/-- A node: the lock objects, the sessions, where each thread is, and the threads that have entered
the monitor of their group, in order. -/
structure SaverNode (T : Type) (E : KieEngine F) where
  table : LockTable JString T := {}
  store : SessionStore E
  pc : T → InsertPc := fun _ => .locking .lookUp
  acquired : List T := []

namespace SaverNode

variable [DecidableEq T] [Fact F] (rm : RulesManager) (calls : T → Key × F)

/-- The node before the inserts, with what the cache holds. -/
def initial (sessions : JString → Entry E) : SaverNode T E := { store := .initial sessions }

/-- The node, one statement of one thread at a time. -/
def lts : Lts (SaverNode T E) T where
  step n t :=
    let group := (calls t).1.getGroup
    match n.pc t with
    | .locking phase => (n.table.step t group phase).map fun (table, phase) =>
      match phase with
      | .hold lock => { n with
          table := table
          pc := Function.update n.pc t (.inside lock .get)
          acquired := n.acquired ++ [t] }
      | phase => { n with table := table, pc := Function.update n.pc t (.locking phase) }
    | .inside lock .leave => (n.table.step t group (.hold lock)).map fun (table, _) =>
      { n with table := table, pc := Function.update n.pc t .returned }
    | .inside lock body => (n.store.body rm group (calls t).2 body).map fun (store, body) =>
      { n with store := store, pc := Function.update n.pc t (.inside lock body) }
    | .returned => none

/-- The facts of the calls for a group, in the order in which they have entered its monitor. -/
def facts (acquired : List T) (group : JString) : List F :=
  (acquired.filter fun t => (calls t).1.getGroup = group).map fun t => (calls t).2

/-- The history that a group has come to when every insert that has entered is through: what it was,
and the facts of these inserts. -/
def expected (H : FactHistory E) (sessions : JString → Entry E) (acquired : List T)
    (group : JString) : List F :=
  Entry.history H (sessions group) ++ facts calls acquired group

/-- The thread has entered the monitor of its group. -/
def hasEntered (n : SaverNode T E) (t : T) : Prop :=
  (∃ lock body, n.pc t = .inside lock body) ∨ n.pc t = .returned

/-- What holds between any two steps. -/
structure Inv (H : FactHistory E) (sessions : JString → Entry E) (n : SaverNode T E) : Prop where
  table : n.table.Inv (fun t => (calls t).1.getGroup) fun t => (n.pc t).phase
  owned : ∃ home, n.store.Owned home ∧ ∀ t lock body, n.pc t = .inside lock body →
    ∀ r, body.session = some r → n.store.Has home (calls t).1.getGroup r
  nodup : n.acquired.Nodup
  acquired : ∀ t, t ∈ n.acquired ↔ n.hasEntered t
  /-- The thread at work on a group is the last that has entered. -/
  inside : ∀ t lock body, n.pc t = .inside lock body →
    ∃ before, expected calls H sessions n.acquired (calls t).1.getGroup = before ++ [(calls t).2] ∧
      n.store.Progress H (calls t).1.getGroup before (calls t).2 body
  /-- A group on which no thread is at work is up to date. -/
  quiet : ∀ group, (∀ t lock body, n.pc t = .inside lock body → (calls t).1.getGroup ≠ group) →
    Entry.history H (n.store.session group) = expected calls H sessions n.acquired group

variable {H : FactHistory E} {sessions : JString → Entry E} {n n' : SaverNode T E} {t : T}

/-- What a step can be. -/
theorem step_cases (h : (lts rm calls).step n t = some n') :
    (∃ phase table phase', n.pc t = .locking phase ∧
      n.table.step t (calls t).1.getGroup phase = some (table, phase') ∧
      (∀ lock, phase' ≠ .hold lock) ∧
      n' = { n with table := table, pc := Function.update n.pc t (.locking phase') }) ∨
    (∃ phase table lock, n.pc t = .locking phase ∧
      n.table.step t (calls t).1.getGroup phase = some (table, .hold lock) ∧
      n' = { n with
        table := table
        pc := Function.update n.pc t (.inside lock .get)
        acquired := n.acquired ++ [t] }) ∨
    (∃ lock table phase', n.pc t = .inside lock .leave ∧
      n.table.step t (calls t).1.getGroup (.hold lock) = some (table, phase') ∧ phase' = .done ∧
      n' = { n with table := table, pc := Function.update n.pc t .returned }) ∨
    (∃ lock body store body', n.pc t = .inside lock body ∧
      n.store.body rm (calls t).1.getGroup (calls t).2 body = some (store, body') ∧
      n' = { n with store := store, pc := Function.update n.pc t (.inside lock body') }) := by
  simp only [lts] at h
  cases hpc : n.pc t with
  | returned => rw [hpc] at h; cases h
  | locking phase =>
    rw [hpc] at h
    obtain ⟨⟨table, phase'⟩, hstep, heq⟩ := Option.map_eq_some_iff.1 h
    -- The step that gets the lock is the one that enters the block.
    cases phase' with
    | hold lock =>
      cases heq
      exact .inr (.inl ⟨phase, table, lock, rfl, hstep, rfl⟩)
    | lookUp | create | offer | wait | done =>
      cases heq
      exact .inl ⟨phase, table, _, rfl, hstep, fun _ h => (nomatch h), rfl⟩
  | inside lock body =>
    rw [hpc] at h
    cases body with
    | leave =>
      obtain ⟨⟨table, phase'⟩, hstep, heq⟩ := Option.map_eq_some_iff.1 h
      cases heq
      -- A thread that holds its lock has only one way on.
      have hdone : phase' = .done := by
        cases hstep
        rfl
      exact .inr (.inr (.inl ⟨lock, table, phase', rfl, hstep, hdone, rfl⟩))
    | get | build | putNew | rebuild | insert | put =>
      obtain ⟨⟨store, body'⟩, hbody, heq⟩ := Option.map_eq_some_iff.1 h
      cases heq
      exact .inr (.inr (.inr ⟨lock, _, store, body', rfl, hbody, rfl⟩))

/-! ## The invariant -/

omit [DecidableEq T] [Fact F] in
/-- Two threads that are at work on one group are one thread. -/
theorem Inv.exclusive (h : Inv calls H sessions n) {t t' : T} {lock lock' : ℕ} {b b' : InsertBody}
    (ht : n.pc t = .inside lock b) (ht' : n.pc t' = .inside lock' b')
    (hgroup : (calls t).1.getGroup = (calls t').1.getGroup) : t = t' := by
  have hphase : (n.pc t).phase = .hold lock := by rw [ht]; rfl
  have hphase' : (n.pc t').phase = .hold lock' := by rw [ht']; rfl
  exact h.table.exclusive hphase hphase' hgroup

omit [Fact F] in
/-- The lock of a thread follows its step. -/
theorem table_step (pc : InsertPc) {table : LockTable JString T} {m : SaverNode T E}
    (h : n.table.Inv (fun t => (calls t).1.getGroup) fun t => (n.pc t).phase)
    (hs : n.table.step t (calls t).1.getGroup (n.pc t).phase = some (table, pc.phase))
    (htable : m.table = table) (hpc : m.pc = Function.update n.pc t pc) :
    m.table.Inv (fun t => (calls t).1.getGroup) fun t => (m.pc t).phase := by
  rw [htable, hpc]
  refine h.step (t := t) ?_ fun t' hne => ?_
  · rw [Function.update_self]
    exact hs
  · rw [Function.update_of_ne hne]

omit [Fact F] in
/-- After a step of a thread, a thread at work is that one, or one that was at work before. -/
theorem inside_update {pc : InsertPc} {t' : T} {lock : ℕ} {b : InsertBody}
    (h : Function.update n.pc t pc t' = .inside lock b) :
    t' = t ∧ pc = .inside lock b ∨ t' ≠ t ∧ n.pc t' = .inside lock b := by
  by_cases hne : t' = t
  · subst hne
    rw [Function.update_self] at h
    exact .inl ⟨rfl, h⟩
  · rw [Function.update_of_ne hne] at h
    exact .inr ⟨hne, h⟩

omit [Fact F] in
/-- Whether a thread has entered changes for the thread that takes the step only. -/
theorem hasEntered_update {m : SaverNode T E} {pc : InsertPc} (hpc : m.pc = Function.update n.pc t pc)
    {t' : T} (hne : t' ≠ t) : m.hasEntered t' ↔ n.hasEntered t' := by
  unfold hasEntered
  rw [hpc, Function.update_of_ne hne]

variable {calls}

omit [DecidableEq T] [Fact F] in
/-- Another fact of the group is at the end of what its history comes to. -/
theorem expected_enter {acquired : List T} {group : JString} :
    expected calls H sessions (acquired ++ [t]) group =
      if (calls t).1.getGroup = group
      then expected calls H sessions acquired group ++ [(calls t).2]
      else expected calls H sessions acquired group := by
  unfold expected facts
  by_cases h : (calls t).1.getGroup = group <;> simp [h, List.filter_append]

omit [DecidableEq T] [Fact F] in
/-- A thread that is still to get its lock is not one that is at work. -/
theorem ne_of_locking {phase : LockPhase} {t' : T} {lock : ℕ} {b : InsertBody}
    (hpc : n.pc t = .locking phase) (ht' : n.pc t' = .inside lock b) : t' ≠ t := by
  rintro rfl
  rw [hpc] at ht'
  cases ht'

omit [Fact F] in
/-- The threads that have entered are the same after a step that does not enter. -/
theorem Inv.acquired_step (h : Inv calls H sessions n) {m : SaverNode T E} {pc : InsertPc}
    (hm : m.pc = Function.update n.pc t pc) (hsame : m.hasEntered t ↔ n.hasEntered t) (t' : T) :
    t' ∈ n.acquired ↔ m.hasEntered t' := by
  rw [h.acquired t']
  by_cases hne : t' = t
  · subst hne
    exact hsame.symm
  · exact (hasEntered_update hm hne).symm

omit [Fact F] in
/-- A step on the way to the lock. -/
theorem Inv.lock {phase phase' : LockPhase} {table : LockTable JString T}
    (h : Inv calls H sessions n) (hpc : n.pc t = .locking phase)
    (hs : n.table.step t (calls t).1.getGroup phase = some (table, phase')) :
    Inv calls H sessions
      { n with table := table, pc := Function.update n.pc t (.locking phase') } := by
  -- The threads at work are the same before and after.
  have hinside : ∀ {t' lock b}, Function.update n.pc t (.locking phase') t' = .inside lock b →
      n.pc t' = .inside lock b := by
    intro t' lock b ht'
    rcases inside_update ht' with ⟨-, hnot⟩ | ⟨-, ht'⟩
    · cases hnot
    · exact ht'
  constructor
  case table => exact table_step calls (.locking phase') h.table (hpc ▸ hs) rfl rfl
  case owned =>
    obtain ⟨home, howned, hhas⟩ := h.owned
    exact ⟨home, howned, fun t' lock b ht' => hhas t' lock b (hinside ht')⟩
  case nodup => exact h.nodup
  case acquired => exact h.acquired_step rfl (by simp [hasEntered, hpc])
  case inside => exact fun t' lock b ht' => h.inside t' lock b (hinside ht')
  case quiet =>
    intro group hg
    refine h.quiet group fun t' lock b ht' => hg t' lock b ?_
    show Function.update n.pc t _ t' = _
    rw [Function.update_of_ne (ne_of_locking hpc ht')]
    exact ht'

omit [Fact F] in
/-- A thread enters the monitor of its group: no other thread is at work on the group. -/
theorem Inv.enter {phase : LockPhase} {lock : ℕ} {table : LockTable JString T}
    (h : Inv calls H sessions n) (hpc : n.pc t = .locking phase)
    (hs : n.table.step t (calls t).1.getGroup phase = some (table, .hold lock)) :
    Inv calls H sessions { n with
      table := table
      pc := Function.update n.pc t (.inside lock .get)
      acquired := n.acquired ++ [t] } := by
  have htable : LockTable.Inv (fun t => (calls t).1.getGroup) table
      fun t' => (Function.update n.pc t (.inside lock .get) t').phase :=
    table_step calls (.inside lock .get)
      (m := { n with table := table, pc := Function.update n.pc t (.inside lock .get) })
      h.table (hpc ▸ hs) rfl rfl
  have hself : (Function.update n.pc t (.inside lock .get) t).phase = .hold lock := by
    rw [Function.update_self]
    rfl
  -- The lock keeps every other thread out of the group.
  have hothers : ∀ t' lock' b, n.pc t' = .inside lock' b →
      (calls t').1.getGroup ≠ (calls t).1.getGroup := by
    intro t' lock' b ht' hgroup
    have hne : t' ≠ t := ne_of_locking hpc ht'
    have hphase : (Function.update n.pc t (.inside lock .get) t').phase = .hold lock' := by
      rw [Function.update_of_ne hne, ht']
      rfl
    exact hne (htable.exclusive hphase hself hgroup)
  have hnew : t ∉ n.acquired := by
    rw [h.acquired t]
    simp [hasEntered, hpc]
  constructor
  case table => exact htable
  case owned =>
    obtain ⟨home, howned, hhas⟩ := h.owned
    refine ⟨home, howned, fun t' lock' b ht' r hr => ?_⟩
    rcases inside_update ht' with ⟨rfl, hb⟩ | ⟨-, ht'⟩
    · cases hb
      cases hr
    · exact hhas t' lock' b ht' r hr
  case nodup => simpa using h.nodup.concat hnew
  case acquired =>
    intro t'
    by_cases hne : t' = t
    · subst hne
      simp [hasEntered]
    · rw [hasEntered_update (n := n) rfl hne, List.mem_append, List.mem_singleton, h.acquired t']
      simp [hne]
  case inside =>
    intro t' lock' b ht'
    rcases inside_update ht' with ⟨rfl, hb⟩ | ⟨-, ht'⟩
    · -- The group was quiet, so the thread finds all that has been inserted into it.
      cases hb
      refine ⟨expected calls H sessions n.acquired (calls t').1.getGroup, ?_, ?_⟩
      · rw [expected_enter, if_pos rfl]
      · exact h.quiet _ hothers
    · rw [expected_enter, if_neg (hothers t' lock' b ht').symm]
      exact h.inside t' lock' b ht'
  case quiet =>
    intro group hg
    have hne : (calls t).1.getGroup ≠ group := hg t lock .get (Function.update_self ..)
    rw [expected_enter, if_neg hne]
    refine h.quiet group fun t' lock' b ht' => hg t' lock' b ?_
    exact (Function.update_of_ne (ne_of_locking hpc ht') ..).trans ht'

omit [Fact F] in
/-- A thread leaves the monitor of its group, whose session is up to date. -/
theorem Inv.leave {lock : ℕ} {table : LockTable JString T} (h : Inv calls H sessions n)
    (hpc : n.pc t = .inside lock .leave)
    (hs : n.table.step t (calls t).1.getGroup (.hold lock) = some (table, .done)) :
    Inv calls H sessions { n with table := table, pc := Function.update n.pc t .returned } := by
  have hinside : ∀ {t' lock b}, Function.update n.pc t .returned t' = .inside lock b →
      n.pc t' = .inside lock b := by
    intro t' lock b ht'
    rcases inside_update ht' with ⟨-, hnot⟩ | ⟨-, ht'⟩
    · cases hnot
    · exact ht'
  constructor
  case table => exact table_step calls .returned h.table (hpc ▸ hs) rfl rfl
  case owned =>
    obtain ⟨home, howned, hhas⟩ := h.owned
    exact ⟨home, howned, fun t' lock b ht' => hhas t' lock b (hinside ht')⟩
  case nodup => exact h.nodup
  case acquired => exact h.acquired_step rfl (by simp [hasEntered, hpc])
  case inside => exact fun t' lock b ht' => h.inside t' lock b (hinside ht')
  case quiet =>
    intro group hg
    by_cases hgroup : (calls t).1.getGroup = group
    · -- The group that is left has come to what was expected.
      subst hgroup
      obtain ⟨before, hexpected, hprogress⟩ := h.inside t lock .leave hpc
      exact hprogress.trans hexpected.symm
    · refine h.quiet group fun t' lock' b ht' => ?_
      by_cases hne : t' = t
      · exact hne ▸ hgroup
      · exact hg t' lock' b ((Function.update_of_ne hne ..).trans ht')

/-- A thread takes a statement of the block. -/
theorem Inv.body {lock : ℕ} {b b' : InsertBody} {store : SessionStore E}
    (h : Inv calls H sessions n) (hpc : n.pc t = .inside lock b)
    (hs : n.store.body rm (calls t).1.getGroup (calls t).2 b = some (store, b')) :
    Inv calls H sessions
      { n with store := store, pc := Function.update n.pc t (.inside lock b') } := by
  obtain ⟨home, howned, hhas⟩ := h.owned
  -- The statement touches the session of this group only, and no other thread is at work on it.
  obtain ⟨home', htouches, howned', hhas'⟩ := SessionStore.body_frame howned (hhas t lock b hpc) hs
  have hothers : ∀ t' lock' b, t' ≠ t → n.pc t' = .inside lock' b →
      (calls t').1.getGroup ≠ (calls t).1.getGroup :=
    fun t' lock' b hne ht' hgroup => hne (h.exclusive calls ht' hpc hgroup)
  constructor
  case table =>
    -- The thread still holds its lock.
    have hphase : ∀ t', (Function.update n.pc t (.inside lock b') t').phase = (n.pc t').phase := by
      intro t'
      by_cases hne : t' = t
      · subst hne
        rw [Function.update_self, hpc]
        rfl
      · rw [Function.update_of_ne hne]
    simp only [hphase]
    exact h.table
  case owned =>
    refine ⟨home', howned', fun t' lock' b₁ ht' r hr => ?_⟩
    rcases inside_update ht' with ⟨rfl, hb⟩ | ⟨-, ht'⟩
    · cases hb
      exact hhas' r hr
    · exact htouches.keeps _ r (hhas t' lock' b₁ ht' r hr)
  case nodup => exact h.nodup
  case acquired => exact h.acquired_step rfl (by simp [hasEntered, hpc])
  case inside =>
    intro t' lock' b₁ ht'
    rcases inside_update ht' with ⟨rfl, hb⟩ | ⟨hne, ht'⟩
    · cases hb
      obtain ⟨before, hexpected, hprogress⟩ := h.inside t' lock b hpc
      exact ⟨before, hexpected, SessionStore.body_progress hprogress hs⟩
    · obtain ⟨before, hexpected, hprogress⟩ := h.inside t' lock' b₁ ht'
      exact ⟨before, hexpected, SessionStore.progress_of_touches htouches howned
        (hothers t' lock' b₁ hne ht') (hhas t' lock' b₁ ht') hprogress⟩
  case quiet =>
    intro group hg
    have hne : group ≠ (calls t).1.getGroup :=
      (hg t lock b' (Function.update_self ..)).symm
    have hsession := htouches.session howned hne
    rw [hsession]
    refine h.quiet group fun t' lock' b₁ ht' => ?_
    by_cases hne' : t' = t
    · subst hne'
      exact hne.symm
    · exact hg t' lock' b₁ ((Function.update_of_ne hne' ..).trans ht')

/-- A step keeps the invariant. -/
theorem Inv.step (h : Inv calls H sessions n) (hs : (lts rm calls).step n t = some n') :
    Inv calls H sessions n' := by
  rcases step_cases rm calls hs with ⟨phase, table, phase', hpc, hlock, -, rfl⟩ |
    ⟨phase, table, lock, hpc, hlock, rfl⟩ | ⟨lock, table, phase', hpc, hlock, rfl, rfl⟩ |
    ⟨lock, b, store, b', hpc, hbody, rfl⟩
  · exact h.lock hpc hlock
  · exact h.enter hpc hlock
  · exact h.leave hpc hlock
  · exact h.body rm hpc hbody

/-- A step of a thread leaves the sessions of other groups alone. -/
theorem Inv.session_step (h : Inv calls H sessions n) (hs : (lts rm calls).step n t = some n')
    {group : JString} (hne : group ≠ (calls t).1.getGroup) :
    n'.store.session group = n.store.session group := by
  rcases step_cases rm calls hs with ⟨phase, table, phase', hpc, hlock, -, rfl⟩ |
    ⟨phase, table, lock, hpc, hlock, rfl⟩ | ⟨lock, table, phase', hpc, hlock, rfl, rfl⟩ |
    ⟨lock, b, store, b', hpc, hbody, rfl⟩
  · rfl
  · rfl
  · rfl
  · obtain ⟨home, howned, hhas⟩ := h.owned
    obtain ⟨home', htouches, -⟩ := SessionStore.body_frame howned (hhas t lock b hpc) hbody
    exact htouches.session howned hne

omit [Fact F] [DecidableEq T] in
/-- The store before the inserts has what the cache holds. -/
theorem session_initial (group : JString) :
    (initial sessions : SaverNode T E).store.session group = sessions group := by
  simp only [initial, SessionStore.session, SessionStore.initial]
  cases hs : sessions group with
  | none => rfl
  | some v => exact hs

omit [Fact F] [DecidableEq T] in
/-- The invariant holds before the inserts. -/
theorem inv_initial : Inv calls H sessions (initial sessions) := by
  refine ⟨LockTable.Inv.start, ⟨Ref.group, ⟨fun group r hr => ?_, fun _ => rfl, fun _ _ => rfl⟩,
    fun _ _ _ h => (nomatch h)⟩, List.nodup_nil, fun t => ?_, fun _ _ _ h => (nomatch h),
    fun group _ => ?_⟩
  · obtain ⟨v, hv, rfl⟩ := Option.map_eq_some_iff.1 hr
    refine ⟨rfl, ?_⟩
    show (sessions group).isSome = true
    rw [hv]
    rfl
  · simp [hasEntered, initial]
  · rw [session_initial]
    exact (List.append_nil _).symm

/-- In every run of any number of threads that call `KieSessionSaver.insert` on a node with any keys
and facts: at most one thread at a time is at work on the session of a group; a step of a thread
leaves the sessions of all other groups as they are; and when every call that has begun has
returned, the session of each group has its earlier history and then the facts of the calls for the
group, each call once, in the order in which they entered the monitor of the group. -/
theorem insert_serializable {H : FactHistory E} {rm : RulesManager} {calls : T → Key × F}
    {sessions : JString → Entry E} {schedule : List T} {n : SaverNode T E}
    (h : (lts rm calls).exec (initial sessions) schedule = some n) :
    (∀ t t' lock lock' body body', n.pc t = .inside lock body → n.pc t' = .inside lock' body' →
      (calls t).1.getGroup = (calls t').1.getGroup → t = t') ∧
    (∀ t n', (lts rm calls).step n t = some n' → ∀ group, group ≠ (calls t).1.getGroup →
      n'.store.session group = n.store.session group) ∧
    ((∀ t, n.pc t = .locking .lookUp ∨ n.pc t = .returned) →
      n.acquired.Nodup ∧ (∀ t, t ∈ n.acquired ↔ n.pc t = .returned) ∧
      ∀ group, Entry.history H (n.store.session group) =
        Entry.history H (sessions group) ++ facts calls n.acquired group) := by
  have hinv : Inv calls H sessions n :=
    (lts rm calls).exec_invariant (Inv calls H sessions) (fun _ _ _ hi hs => hi.step rm hs)
      inv_initial h
  refine ⟨fun t t' lock lock' body body' ht ht' hgroup => hinv.exclusive calls ht ht' hgroup,
    fun t n' hs group hne => hinv.session_step rm hs hne, fun hreturned => ?_⟩
  -- When every call has returned no thread is at work, and every group is quiet.
  have hnobody : ∀ t lock body, n.pc t ≠ .inside lock body := by
    intro t lock body ht
    rcases hreturned t with h | h <;> rw [ht] at h <;> cases h
  refine ⟨hinv.nodup, fun t => ?_, fun group => ?_⟩
  · rw [hinv.acquired t]
    constructor
    · rintro (⟨lock, body, ht⟩ | ht)
      · exact absurd ht (hnobody t lock body)
      · exact ht
    · exact .inr
  · exact hinv.quiet group fun t lock body ht => absurd ht (hnobody t lock body)

/-- Two calls for one player. -/
def playersCalls (t : Bool) : Key × Reading := (⟨jstr "player"⟩, if t then ⟨3⟩ else ⟨2⟩)

/-- The player's session is a serialized one that has buffered a fact. -/
def playersSession (_ : JString) : Entry Recorder.engine :=
  some (.serialized { version := jstr "1", buffer := [⟨1⟩], size := 1 })

/-- Both threads find no lock object and make one; the second thread's is kept, and the first thread
is the first to enter with it. -/
def playersSchedule : List Bool :=
  [false, true, false, true, true, false, false, false, false, false, false, false, true, true, true,
    true, true]

/-- The two facts follow the buffered one in the order of the lock. -/
theorem insert_serializable_players :
    ∃ n, (lts (Recorder.manager (jstr "1")) playersCalls).exec (initial playersSession)
        playersSchedule = some n ∧ (∀ t, n.pc t = .returned) ∧ n.acquired = [false, true] ∧
      Entry.history Recorder.history (n.store.session (jstr "player")) = [⟨1⟩, ⟨2⟩, ⟨3⟩] := by
  have hrun : ((lts (Recorder.manager (jstr "1")) playersCalls).exec (initial playersSession)
      playersSchedule).any (fun n => decide
        ((∀ t, n.pc t = .returned) ∧ n.acquired = [false, true])) = true := by
    decide +kernel
  obtain ⟨n, hn, hafter⟩ := (Option.any_eq_true _ _).1 hrun
  obtain ⟨hreturned, hacquired⟩ := of_decide_eq_true hafter
  obtain ⟨-, -, hdone⟩ := insert_serializable (H := Recorder.history) hn
  obtain ⟨-, -, hhistory⟩ := hdone fun t => .inr (hreturned t)
  refine ⟨n, hn, hreturned, hacquired, ?_⟩
  rw [hhistory (jstr "player"), hacquired]
  rfl

end SaverNode

end Hacep
