import Hacep.Cluster.FactKeys
import Hacep.Grid.SingleSession
import Hacep.Lib.Mailbox

/-!
# From the fact cache to the sessions

A fact that a route hands to `insertFact` is put into the fact cache; the created event of its entry
calls `KieSessionSaver.insert` on the primary owner, where the call waits for the lock of the group,
gets the session and works on it. The calls of a group wait at that lock together, and any of them
may be the next. A call for the group `null` throws before it has a lock, and a fact of such a group
is in no session.

The locks are those of a node. What the calls of two nodes make of one session, and what a call
leaves that throws, is not described: `disturb` is such an event, after which the session of the
group may be anything. The results are about one group that nothing disturbs, whatever becomes of
the others. For that group the grid is a run of `Grid.crashLts` (`inserts`), since no action at
another key touches its session (`Grid.Agrees.other`).

For one group the waiting calls are a mailbox (`mailbox`), and the calls that have got the lock are
inserts of the grid. So where the puts of the group find no entry and no waiting call crashes, every
fact is inserted exactly once (`inserted_once`); and where the messages of a group are handled one
after the other, which is what their group id asks of the broker, the sessions of the group are one
session that takes its facts in the order of the messages (`deliveries_in_order`).
-/

namespace Hacep

open Java PrimaryBackup

/-! ## One key of the grid -/

namespace Grid

variable {K N F : Type} [DecidableEq K] [DecidableEq N] {E : KieEngine F}

/-- Two grids have the same rules on their nodes, and the same session of a key. -/
structure Agrees (k : K) (g g' : Grid K N E) : Prop where
  rules : g.rules = g'.rules
  slot : g.slot k = g'.slot k

/-- The action may touch the session of a key. -/
def CrashAction.concerns (k : K) : CrashAction K N F → Bool
  | .transfer (.grid (.key k' _)) | .transfer (.join k' _ _) => k' = k
  | .transfer (.grid (.updateToVersion _ _)) | .crash _ => true

variable [Fact F] {codec : FactCodec F} {k : K} {g g' h : Grid K N E} {a : CrashAction K N F}

/-- Grids that agree on a key can take the same actions that concern it, and agree afterwards. -/
theorem Agrees.step (hagrees : Agrees k g h) (hconcerns : a.concerns k = true)
    (hs : (crashLts E codec).step g a = some g') :
    ∃ h', (crashLts E codec).step h a = some h' ∧ Agrees k g' h' := by
  obtain ⟨hrules, hslot⟩ := hagrees
  match a with
  | .transfer (.grid (.key k' action)) =>
    obtain rfl : k' = k := of_decide_eq_true hconcerns
    obtain ⟨s, haction, rfl⟩ := Option.map_eq_some_iff.1 hs
    rw [hslot, hrules] at haction
    refine ⟨{ h with slot := Function.update h.slot k' s }, ?_, hrules, ?_⟩
    · simp only [crashLts, transferLts, lts, haction, Option.map_some]
    · simp only [Function.update_self]
  | .transfer (.join k' primary newOwner) =>
    obtain rfl : k' = k := of_decide_eq_true hconcerns
    obtain ⟨s, hjoin, rfl⟩ := Option.map_eq_some_iff.1 hs
    rw [hslot, hrules] at hjoin
    refine ⟨{ h with slot := Function.update h.slot k' s }, ?_, hrules, ?_⟩
    · simp only [crashLts, transferLts, hjoin, Option.map_some]
    · simp only [Function.update_self]
  | .transfer (.grid (.updateToVersion node version)) =>
    simp only [crashLts, transferLts, lts, hrules] at hs ⊢
    split at hs
    · cases hs
      exact ⟨_, rfl, rfl, by simp only [hslot]⟩
    · cases hs
  | .crash n =>
    cases hs
    exact ⟨_, rfl, hrules, by simp only [hslot]⟩

/-- An action that does not concern a key leaves its session and the rules. -/
theorem Agrees.other (hagrees : Agrees k g h) (hconcerns : a.concerns k = false)
    (hs : (crashLts E codec).step g a = some g') : Agrees k g' h := by
  match a with
  | .transfer (.grid (.key k' action)) =>
    obtain ⟨s, -, rfl⟩ := Option.map_eq_some_iff.1 hs
    have hne : k ≠ k' := fun hk => of_decide_eq_false hconcerns hk.symm
    exact ⟨hagrees.rules, (Function.update_of_ne hne ..).trans hagrees.slot⟩
  | .transfer (.join k' primary newOwner) =>
    obtain ⟨s, -, rfl⟩ := Option.map_eq_some_iff.1 hs
    have hne : k ≠ k' := fun hk => of_decide_eq_false hconcerns hk.symm
    exact ⟨hagrees.rules, (Function.update_of_ne hne ..).trans hagrees.slot⟩
  | .transfer (.grid (.updateToVersion _ _)) => cases hconcerns
  | .crash _ => cases hconcerns

omit [DecidableEq K] [DecidableEq N] [Fact F] in
theorem TransfersApart.of_agrees (hagrees : Agrees k g h) (hapart : TransfersApart k g a) :
    TransfersApart k h a := by
  match a with
  | .transfer (.join _ _ _) => exact fun hk => hagrees.slot ▸ hapart hk
  | .transfer (.grid _) => trivial
  | .crash _ => trivial

omit [DecidableEq K] [DecidableEq N] [Fact F] in
theorem Spares.of_agrees (hagrees : Agrees k g h) (hspares : Spares k g a) : Spares k h a := by
  match a with
  | .transfer _ => trivial
  | .crash n => exact fun hp => hspares (hagrees.slot ▸ hp)

omit [DecidableEq K] [DecidableEq N] [Fact F] in
theorem KeepsOne.of_agrees (hagrees : Agrees k g h) (hkeeps : KeepsOne k g a) : KeepsOne k h a := by
  match a with
  | .transfer (.grid (.key _ _)) => trivial
  | .transfer (.grid (.updateToVersion _ _)) => exact hkeeps
  | .transfer (.join _ _ _) => exact fun hk => hagrees.slot ▸ hkeeps hk
  | .crash n => exact fun hp => hkeeps (hagrees.slot ▸ hp)

omit [DecidableEq K] [DecidableEq N] [Fact F] in
theorem MergesUnbuffered.of_agrees (hagrees : Agrees k g h) (hmerges : MergesUnbuffered k g a) :
    MergesUnbuffered k h a := by
  match a with
  | .transfer (.grid (.key _ (.merge _))) => exact fun hk => hagrees.slot ▸ hmerges hk
  | .transfer (.grid (.key _ (.get _ _))) | .transfer (.grid (.key _ .resolve))
  | .transfer (.grid (.key _ .insert)) | .transfer (.grid (.key _ .put))
  | .transfer (.grid (.key _ .commit)) | .transfer (.grid (.key _ (.snapshot _)))
  | .transfer (.grid (.updateToVersion _ _)) | .transfer (.join _ _ _) | .crash _ => trivial

omit [DecidableEq N] in
/-- What is delivered for a key is up to its session and the rules. -/
theorem Agrees.deliveredReal (hagrees : Agrees k g h) :
    a.deliveredReal k g = a.deliveredReal k h := by
  match a with
  | .transfer (.grid (.key _ _)) =>
    simp only [CrashAction.deliveredReal, CrashAction.delivered, hagrees.slot, hagrees.rules]
  | .transfer (.grid (.updateToVersion _ _)) | .transfer (.join _ _ _) | .crash _ => rfl

end Grid

variable {T N F : Type} [DecidableEq N] [Fact F] {E : KieEngine F}

/-- A call of `KieSessionSaver.insert` that waits for the lock of its group. -/
structure WaitingInsert (N F : Type) where
  node : N
  group : JString
  fact : F

/-- The fact cache, the calls that wait, and the grid. -/
structure Pipeline (T N : Type) {F : Type} (E : KieEngine F) where
  cache : FactCache T F := {}
  waiting : List (WaitingInsert N F) := []
  grid : Grid JString N E

namespace Pipeline

/-- What happens between the routes and the sessions. -/
inductive Action (N : Type) {F : Type} (E : KieEngine F)
  /-- `insertFact`, of a fact whose key has a primary owner. -/
  | insertFact (primary : N) (fact : F)
  /-- An entry of the fact cache expires. -/
  | expire (entry : ℕ)
  /-- A waiting call gets the lock, and `sessionCache.get` returns. -/
  | lock (place : ℕ)
  /-- Any other action of the grid. -/
  | grid (action : Grid.CrashAction JString N F)
  /-- A call of a group throws, or two nodes are at work on its session: it may be anything then. -/
  | disturb (group : JString) (slot : Slot N E)

/-- The facts that are put for a group. -/
def Action.fact (extractKey : F → FactKey T) (k : JString) : Action N E → List F
  | .insertFact _ fact => if (extractKey fact).getGroup = some k then [fact] else []
  | _ => []

/-- `sessionCache.get` of an insert. -/
def isGet : Grid.CrashAction JString N F → Bool
  | .transfer (.grid (.key _ (.get _ _))) => true
  | _ => false

/-- The calls that wait on a node. -/
def atNode (n : N) (w : WaitingInsert N F) : Bool := w.node = n

/-- The waiting calls that an action leaves: a crash takes those of its node. -/
def survivors (waiting : List (WaitingInsert N F)) :
    Grid.CrashAction JString N F → List (WaitingInsert N F)
  | .transfer _ => waiting
  | .crash n => waiting.filter fun w => !atNode n w

variable (E) (extractKey : F → FactKey T) (codec : FactCodec F)

/-- The insert that a call begins when it gets the lock. -/
def begin (w : WaitingInsert N F) : Grid.CrashAction JString N F :=
  .transfer (.grid (.key w.group (.get w.node w.fact)))

/-- The calls that a put leads to; `locks.get(null)` throws, and such a call does not come to wait.
-/
def calls (c : FactCache T F) (primary : N) (fact : F) : List (WaitingInsert N F) :=
  if c.containsKey (extractKey fact) then []
  else (FactCache.created (extractKey fact) fact).filterMap fun insert =>
    insert.1.map fun group => ⟨primary, group, insert.2⟩

/-- The pipeline, with one action at a time. -/
def lts : Lts (Pipeline T N E) (Action N E) where
  step s
    | .insertFact primary fact => some { s with
        cache := s.cache.put (extractKey fact) fact
        waiting := s.waiting ++ calls extractKey s.cache primary fact }
    | .expire entry => some { s with
        cache := { s.cache with entries := s.cache.entries.eraseIdx entry } }
    | .lock place =>
      match s.waiting[place]? with
      | some w => ((Grid.crashLts E codec).step s.grid (begin w)).map fun g => { s with
          waiting := s.waiting.eraseIdx place, grid := g }
      | none => none
    | .grid action =>
      if isGet action then none
      else ((Grid.crashLts E codec).step s.grid action).map fun g => { s with
        waiting := survivors s.waiting action, grid := g }
    | .disturb group slot => some { s with
        grid := { s.grid with slot := Function.update s.grid.slot group slot } }

/-! ## The grid of a run -/

variable {E}

/-- The action of the grid that an action is, where it concerns a group. -/
def Action.onGrid (k : JString) (s : Pipeline T N E) :
    Action N E → List (Grid.CrashAction JString N F)
  | .lock place => (s.waiting[place]?.map begin).toList.filter (Grid.CrashAction.concerns k)
  | .grid action => [action].filter (Grid.CrashAction.concerns k)
  | _ => []

/-- Nothing disturbs a group, and a crash spares the calls that wait for its lock and its insert. -/
def Spares (k : JString) (s : Pipeline T N E) : Action N E → Prop
  | .grid (.crash n) => (s.grid.slot k).pc.primary ≠ some n ∧
      ∀ w ∈ s.waiting, w.group = k → w.node ≠ n
  | .disturb group _ => group ≠ k
  | _ => True

omit [DecidableEq N] [Fact F] in
/-- An action is one action of the grid at most. -/
theorem onGrid_cases (k : JString) (s : Pipeline T N E) (a : Action N E) :
    a.onGrid k s = [] ∨ ∃ action, a.onGrid k s = [action] := by
  have hfilter : ∀ action : Grid.CrashAction JString N F,
      [action].filter (Grid.CrashAction.concerns k) = [] ∨
        ∃ action', [action].filter (Grid.CrashAction.concerns k) = [action'] := by
    intro action
    cases h : action.concerns k with
    | false => exact .inl (by simp [h])
    | true => exact .inr ⟨action, by simp [h]⟩
  cases a with
  | insertFact primary fact | expire entry | disturb group slot => exact .inl rfl
  | lock place =>
    rw [Action.onGrid]
    cases s.waiting[place]? with
    | none => exact .inl rfl
    | some w => exact hfilter (begin w)
  | grid action => exact hfilter action

variable {extractKey codec} {s s' : Pipeline T N E} {k : JString}

theorem lock_eq_some {place : ℕ} (h : (lts E extractKey codec).step s (.lock place) = some s') :
    ∃ w g, s.waiting[place]? = some w ∧ (Grid.crashLts E codec).step s.grid (begin w) = some g ∧
      s' = { s with waiting := s.waiting.eraseIdx place, grid := g } := by
  simp only [lts] at h
  split at h
  · obtain ⟨g, hg, rfl⟩ := Option.map_eq_some_iff.1 h
    exact ⟨_, g, ‹_›, hg, rfl⟩
  · cases h

theorem grid_eq_some {action : Grid.CrashAction JString N F}
    (h : (lts E extractKey codec).step s (.grid action) = some s') :
    isGet action = false ∧ ∃ g, (Grid.crashLts E codec).step s.grid action = some g ∧
      s' = { s with waiting := survivors s.waiting action, grid := g } := by
  simp only [lts] at h
  split at h
  · cases h
  · obtain ⟨g, hg, rfl⟩ := Option.map_eq_some_iff.1 h
    exact ⟨Bool.eq_false_iff.2 ‹_›, g, hg, rfl⟩

/-- A grid that agrees on a group follows the actions that concern it. -/
theorem follow {g g' h : Grid JString N E} {action : Grid.CrashAction JString N F}
    (hagrees : Grid.Agrees k g h) (hs : (Grid.crashLts E codec).step g action = some g') :
    ∃ h', (Grid.crashLts E codec).exec h ([action].filter (Grid.CrashAction.concerns k)) =
      some h' ∧ Grid.Agrees k g' h' := by
  cases hconcerns : action.concerns k with
  | false =>
    refine ⟨h, ?_, hagrees.other hconcerns hs⟩
    rw [List.filter_cons_of_neg (by rw [hconcerns]; exact Bool.false_ne_true)]
    rfl
  | true =>
    obtain ⟨h', hs', hagrees'⟩ := hagrees.step hconcerns hs
    refine ⟨h', ?_, hagrees'⟩
    rw [List.filter_cons_of_pos hconcerns, List.filter_nil, Lts.exec, hs']
    rfl

variable (extractKey codec k) in
/-- For a group that nothing disturbs, the calls that have got their lock are inserts of the grid. -/
def inserts : Simulation (lts (T := T) (N := N) E extractKey codec) (Grid.crashLts E codec)
    (Spares k) (fun s a => a.onGrid k s) where
  rel s g := Grid.Agrees k s.grid g
  step := by
    rintro s g a s' hagrees hspares h
    cases a with
    | insertFact primary fact | expire entry =>
      cases h
      exact ⟨g, rfl, hagrees⟩
    | lock place =>
      obtain ⟨w, g', hw, hg, rfl⟩ := lock_eq_some h
      simp only [Action.onGrid, hw, Option.map_some, Option.toList_some]
      exact follow hagrees hg
    | grid action =>
      obtain ⟨-, g', hg, rfl⟩ := grid_eq_some h
      exact follow hagrees hg
    | disturb group slot =>
      cases h
      have hne : k ≠ group := fun hk => hspares hk.symm
      exact ⟨g, rfl, hagrees.rules, (Function.update_of_ne hne ..).trans hagrees.slot⟩

/-! ## The waiting calls of a group -/

/-- The facts of the calls that wait for the lock of a group. -/
def waitingFor (k : JString) (s : Pipeline T N E) : List F :=
  (s.waiting.filter fun w => w.group = k).map WaitingInsert.fact

/-- The facts that have been handed to `KieSessionSaver.insert` for a group. -/
def insertedFor (k : JString) (s : Pipeline T N E) : List F :=
  (s.cache.inserted.filter fun insert => insert.1 = some k).map Prod.snd

/-- What an action does to the waiting calls of a group. -/
def Action.onWaiting (extractKey : F → FactKey T) (k : JString) (s : Pipeline T N E) :
    Action N E → List (Mailbox.Action F)
  | .insertFact primary fact =>
    ((calls extractKey s.cache primary fact).filter fun w => w.group = k).map fun w =>
      .send w.fact
  | .lock place =>
    match s.waiting[place]? with
    | some w =>
      if w.group = k then [.take (Mailbox.placeIn (fun w => w.group = k) s.waiting place)] else []
    | none => []
  | _ => []

omit [DecidableEq N] [Fact F] in
/-- The calls of a put for a group are for the facts that it inserts for it. -/
theorem insertedFor_put (s : Pipeline T N E) (k : JString) (primary : N) (fact : F) :
    (((s.cache.put (extractKey fact) fact).inserted.filter fun insert => insert.1 = some k).map
        Prod.snd) = s.insertedFor k ++
      ((calls extractKey s.cache primary fact).filter fun w => w.group = k).map
        WaitingInsert.fact := by
  rw [FactCache.put_inserted, calls, insertedFor]
  split
  · exact (List.append_nil _).symm
  · rw [List.filter_append, List.map_append, show FactCache.created (extractKey fact) fact =
      [((extractKey fact).getGroup, fact)] from rfl, FactCache.ownInsert]
    congr 1
    cases (extractKey fact).getGroup with
    | none => rfl
    | some group =>
      by_cases hgroup : group = k
      · simp [hgroup]
      · simp [hgroup]

omit [DecidableEq N] [Fact F] in
/-- A put that creates an entry, where it is for the group, leads to a call for it. -/
theorem calls_of_creates {primary : N} {fact : F}
    (hcreates : ∀ fact' ∈ (Action.insertFact (E := E) primary fact).fact extractKey k,
      s.cache.containsKey (extractKey fact') = false) :
    ((calls extractKey s.cache primary fact).filter fun w => w.group = k).map WaitingInsert.fact =
      (Action.insertFact (E := E) primary fact).fact extractKey k := by
  rw [Action.fact] at hcreates ⊢
  rw [calls, show FactCache.created (extractKey fact) fact =
    [((extractKey fact).getGroup, fact)] from rfl]
  by_cases hgroup : (extractKey fact).getGroup = some k
  · rw [if_pos hgroup] at hcreates ⊢
    rw [hcreates fact (List.mem_singleton_self fact), hgroup]
    simp
  · rw [if_neg hgroup]
    split
    · rfl
    · cases hcase : (extractKey fact).getGroup with
      | none => rfl
      | some group =>
        have hne : group ≠ k := fun hk => hgroup (hcase.trans (congrArg some hk))
        simp [hne]

omit [DecidableEq N] [Fact F] in
/-- No action of the grid but a `get` brings a fact. -/
theorem fact_of_isGet {action : Grid.CrashAction JString N F} (h : isGet action = false) :
    action.fact k = [] := by
  match action with
  | .transfer (.grid (.key k' (.get _ _))) => cases h
  | .transfer (.grid (.key k' .resolve)) | .transfer (.grid (.key k' .insert))
  | .transfer (.grid (.key k' .put)) | .transfer (.grid (.key k' (.merge _)))
  | .transfer (.grid (.key k' .commit)) | .transfer (.grid (.key k' (.snapshot _))) =>
    exact ite_self _
  | .transfer (.grid (.updateToVersion _ _)) => rfl
  | .transfer (.join _ _ _) => rfl
  | .crash _ => rfl

omit [Fact F] in
/-- A crash that spares the waiting calls of a group leaves them. -/
theorem survivors_filter {action : Grid.CrashAction JString N F}
    (hspares : Spares k s (.grid action)) :
    (survivors s.waiting action).filter (fun w => w.group = k) =
      s.waiting.filter fun w => w.group = k := by
  cases action with
  | transfer action => rfl
  | crash n =>
    rw [survivors, List.filter_filter]
    refine List.filter_congr fun w hw => ?_
    by_cases hk : w.group = k
    · simp [hk, atNode, hspares.2 w hw hk]
    · simp [hk]

variable (extractKey codec k) in
/-- The calls that wait for the lock of a group are a mailbox; what is taken from it is inserted. -/
def mailbox : Simulation (lts (T := T) (N := N) E extractKey codec) (Mailbox.lts F) (Spares k)
    (fun s a => a.onWaiting extractKey k s) where
  rel s m := m.sent = s.insertedFor k ∧ m.waiting = s.waitingFor k ∧
    m.taken = (s.grid.slot k).completed ++ (s.grid.slot k).pending
  step := by
    rintro s m a s' ⟨hsent, hwaiting, htaken⟩ hspares h
    cases a with
    | insertFact primary fact =>
      cases h
      have hsends := Mailbox.exec_sends
        (((calls extractKey s.cache primary fact).filter fun w => w.group = k).map
          WaitingInsert.fact) m
      rw [List.map_map] at hsends
      refine ⟨_, hsends, ?_, ?_, htaken⟩
      · rw [hsent]
        exact (insertedFor_put s k primary fact).symm
      · rw [hwaiting, waitingFor, waitingFor, List.filter_append, List.map_append]
    | expire entry =>
      cases h
      exact ⟨m, rfl, hsent, hwaiting, htaken⟩
    | lock place =>
      obtain ⟨w, g, hw, hg, rfl⟩ := lock_eq_some h
      have hpending := Grid.crash_pending (k := k) (a := begin w) trivial hg
      simp only [Action.onWaiting, hw]
      by_cases hk : w.group = k
      · -- The call is taken from the mailbox, and its fact is pending.
        obtain ⟨hplace, hrest⟩ := Mailbox.filter_eraseIdx_of_pos (p := fun w => w.group = k) hw
          (by simpa using hk)
        have hmessage : m.waiting[Mailbox.placeIn (fun w => w.group = k) s.waiting place]? =
            some w.fact := by
          rw [hwaiting, waitingFor, List.getElem?_map, hplace]
          rfl
        rw [if_pos hk]
        refine ⟨{ m with
          waiting := m.waiting.eraseIdx (Mailbox.placeIn (fun w => w.group = k) s.waiting place)
          taken := m.taken ++ [w.fact] }, ?_, hsent, ?_, ?_⟩
        · simp only [Lts.exec, Mailbox.lts, hmessage, Option.bind_some]
        · simp only [hwaiting, waitingFor, hrest, List.eraseIdx_map]
        · have hfact : (begin w).fact k = [w.fact] := if_pos hk
          rw [hpending, ← htaken, hfact]
      · have hrest := Mailbox.filter_eraseIdx_of_neg (p := fun w => w.group = k) hw (by simpa using hk)
        rw [if_neg hk]
        refine ⟨m, rfl, hsent, ?_, ?_⟩
        · rw [hwaiting, waitingFor, waitingFor, hrest]
        · have hfact : (begin w).fact k = [] := if_neg hk
          rw [hpending, ← htaken, hfact, List.append_nil]
    | grid action =>
      obtain ⟨hget, g, hg, rfl⟩ := grid_eq_some h
      have hgrid : Grid.Spares k s.grid action := by
        cases action with
        | transfer action => trivial
        | crash n => exact hspares.1
      have hpending := Grid.crash_pending hgrid hg
      rw [fact_of_isGet hget, List.append_nil] at hpending
      refine ⟨m, rfl, hsent, ?_, htaken.trans hpending.symm⟩
      rw [hwaiting, waitingFor, waitingFor, survivors_filter hspares]
    | disturb group slot =>
      cases h
      have hne : k ≠ group := fun hk => hspares hk.symm
      refine ⟨m, rfl, hsent, hwaiting, ?_⟩
      simp only [Function.update_of_ne hne]
      exact htaken

/-! ## Runs -/

/-- An empty fact cache, and an empty session cache. -/
def start (rules : N → RulesManager) (owners : JString → Finset N) : Pipeline T N E :=
  { grid := Grid.start rules owners }

/-- The actions of the grid meet a condition, crashes spare the group, and a put for the group
creates an entry. -/
structure Orderly (extractKey : F → FactKey T) (k : JString)
    (ok : Grid JString N E → Grid.CrashAction JString N F → Prop)
    (s : Pipeline T N E) (a : Action N E) : Prop where
  grid : ∀ action ∈ a.onGrid k s, ok s.grid action
  spares : s.Spares k a
  creates : ∀ fact ∈ a.fact extractKey k, s.cache.containsKey (extractKey fact) = false

omit [DecidableEq N] [Fact F] in
/-- A crash that spares the group spares it in the grid. -/
theorem Orderly.spared {extractKey : F → FactKey T} {k : JString}
    {ok : Grid JString N E → Grid.CrashAction JString N F → Prop}
    {s : Pipeline T N E} {a : Action N E} (h : Orderly extractKey k ok s a) :
    Orderly extractKey k (fun g action => ok g action ∧ Grid.Spares k g action) s a := by
  refine ⟨fun action haction => ⟨h.grid action haction, ?_⟩, h.spares, h.creates⟩
  have hspares := h.spares
  cases a with
  | insertFact primary fact | expire entry | disturb group slot => cases haction
  | lock place =>
    have hbegin := (List.mem_filter.1 haction).1
    rw [Option.mem_toList, Option.map_eq_some_iff] at hbegin
    obtain ⟨w, -, rfl⟩ := hbegin
    trivial
  | grid action' =>
    cases List.mem_singleton.1 (List.mem_filter.1 haction).1
    cases action with
    | transfer action => trivial
    | crash n => exact hspares.1

/-- A put for the group finds no call that waits. -/
def InTurn (extractKey : F → FactKey T) (k : JString) (s : Pipeline T N E) :
    Action N E → Prop
  | .insertFact _ fact => (extractKey fact).getGroup = some k → s.waitingFor k = []
  | _ => True

section Run

instance (k : JString) (s : Pipeline T N E) : ∀ a : Action N E, Decidable (s.Spares k a)
  | .grid (.crash n) => inferInstanceAs (Decidable ((s.grid.slot k).pc.primary ≠ some n ∧
      ∀ w ∈ s.waiting, w.group = k → w.node ≠ n))
  | .disturb group _ => inferInstanceAs (Decidable (group ≠ k))
  | .insertFact _ _ | .expire _ | .lock _ | .grid (.transfer _) => isTrue trivial

instance [DecidableEq F] (k : JString) (s : Pipeline T N E) :
    ∀ a : Action N E, Decidable (InTurn extractKey k s a)
  | .insertFact _ fact =>
    inferInstanceAs (Decidable ((extractKey fact).getGroup = some k → s.waitingFor k = []))
  | .expire _ | .lock _ | .grid _ | .disturb _ _ => isTrue trivial

instance (ok : Grid JString N E → Grid.CrashAction JString N F → Prop)
    [∀ g a, Decidable (ok g a)] (s : Pipeline T N E) (a : Action N E) :
    Decidable (Orderly extractKey k ok s a) :=
  decidable_of_iff ((∀ action ∈ a.onGrid k s, ok s.grid action) ∧ s.Spares k a ∧
      ∀ fact ∈ a.fact extractKey k, s.cache.containsKey (extractKey fact) = false)
    ⟨fun h => ⟨h.1, h.2.1, h.2.2⟩, fun h => ⟨h.grid, h.spares, h.creates⟩⟩

variable {ok : Grid JString N E → Grid.CrashAction JString N F → Prop}
  {rules : N → RulesManager} {owners : JString → Finset N} {actions : List (Action N E)}

/-- The inserts of a run are a run of the grid, which meets a condition on the session of the group
and ends in the same session. -/
theorem exec_grid
    (hlocal : ∀ {g h : Grid JString N E} {action}, Grid.Agrees k g h → ok g action → ok h action)
    (hguarded : (lts E extractKey codec).Guarded (Orderly extractKey k ok) (start rules owners) actions)
    (h : (lts E extractKey codec).exec (start rules owners) actions = some s) :
    let onGrid := (lts E extractKey codec).trace (fun s a => a.onGrid k s) (start rules owners) actions
    (Grid.crashLts E codec).Guarded ok (Grid.start rules owners) onGrid ∧
      ∃ g, (Grid.crashLts E codec).exec (Grid.start rules owners) onGrid = some g ∧
        Grid.Agrees k s.grid g := by
  let R := (inserts (N := N) (E := E) extractKey codec k).strengthen (Orderly extractKey k ok)
    fun _ _ hok => hok.spares
  have hstart : R.rel (start rules owners) (Grid.start rules owners) := ⟨rfl, rfl⟩
  obtain ⟨g, hg, hagrees⟩ := R.run hstart hguarded h
  refine ⟨R.run_guarded ok (fun s g a s' hrel hok hs => ?_) hstart hguarded h, g, hg, hagrees⟩
  have hgrid := hok.grid
  rcases onGrid_cases k s a with hnone | ⟨action, hone⟩
  · rw [hnone]
    trivial
  · rw [hone] at hgrid ⊢
    exact ⟨hlocal hrel (hgrid action List.mem_cons_self), fun _ _ => trivial⟩

/-- Where every put for a group creates an entry, every message of the group is handed to
`KieSessionSaver.insert`, in order. -/
theorem insertedFor_eq
    (hguarded : (lts E extractKey codec).Guarded (Orderly extractKey k ok) (start rules owners) actions)
    (h : (lts E extractKey codec).exec (start rules owners) actions = some s) :
    s.insertedFor k = actions.flatMap (Action.fact extractKey k) := by
  rw [← (lts E extractKey codec).trace_const h]
  refine (lts E extractKey codec).guarded_log (insertedFor k)
    (fun _ a => a.fact extractKey k) (fun s a s' hok hs => ?_) hguarded h
  have hcreates := hok.creates
  cases a with
  | insertFact primary fact =>
    cases hs
    exact (insertedFor_put s k primary fact).trans
      (congrArg (s.insertedFor k ++ ·) (calls_of_creates hcreates))
  | expire entry | disturb group slot =>
    cases hs
    exact (List.append_nil _).symm
  | lock place =>
    obtain ⟨w, g, -, -, rfl⟩ := lock_eq_some hs
    exact (List.append_nil _).symm
  | grid action =>
    obtain ⟨-, g, -, rfl⟩ := grid_eq_some hs
    exact (List.append_nil _).symm

/-- What has been inserted for a group, and what waits, is what has been put for it. -/
theorem exec_mailbox
    (hguarded : (lts E extractKey codec).Guarded (Orderly extractKey k ok) (start rules owners) actions)
    (h : (lts E extractKey codec).exec (start rules owners) actions = some s) :
    let facts := actions.flatMap (Action.fact extractKey k)
    let inserted := (s.grid.slot k).completed ++ (s.grid.slot k).pending
    (inserted ++ s.waitingFor k).Perm facts ∧
      ((lts E extractKey codec).Guarded (InTurn extractKey k) (start rules owners) actions →
        inserted ++ s.waitingFor k = facts) := by
  have hspares := hguarded.mono _ fun _ _ hok => hok.spares
  have hstart : (mailbox (N := N) (E := E) extractKey codec k).rel (start rules owners) {} :=
    ⟨rfl, rfl, rfl⟩
  obtain ⟨m, hm, hsent, hwaiting, htaken⟩ := (mailbox extractKey codec k).run hstart hspares h
  rw [← insertedFor_eq hguarded h, ← hsent, Mailbox.exec_sent hm, ← hwaiting, ← htaken]
  refine ⟨Mailbox.perm hm, fun hturn => Mailbox.in_turn ?_ hm⟩
  let R := (mailbox (N := N) (E := E) extractKey codec k).strengthen
    (fun s a => Spares k s a ∧ InTurn extractKey k s a) fun _ _ hok => hok.1
  refine R.run_guarded Mailbox.InTurn (fun s m a s' hrel hok hs => ?_) hstart
    (Lts.Guarded.and _ hspares hturn) h
  cases a with
  | insertFact primary fact =>
    -- A put leads to one call at most, and finds none that waits.
    simp only [Action.onWaiting, calls]
    split
    · trivial
    · rw [show FactCache.created (extractKey fact) fact =
        [((extractKey fact).getGroup, fact)] from rfl]
      by_cases hk : (extractKey fact).getGroup = some k
      · have hempty : m.waiting = [] := hrel.2.1.trans (hok.2 hk)
        simp only [List.filterMap_cons, List.filterMap_nil, hk, Option.map_some, List.map_cons,
          List.map_nil, decide_true, List.filter_cons_of_pos, List.filter_nil]
        exact ⟨hempty, fun _ _ => trivial⟩
      · cases hgroup : (extractKey fact).getGroup with
        | none => trivial
        | some group =>
          simp only [List.filterMap_cons, List.filterMap_nil, Option.map_some]
          rw [List.filter_cons_of_neg (by simpa [hgroup] using hk)]
          trivial
  | lock place =>
    simp only [Action.onWaiting]
    split
    · split
      · exact ⟨trivial, fun _ _ => trivial⟩
      · trivial
    · trivial
  | expire entry | grid action | disturb group slot => trivial

/-- The key of a reading: readings below 100 are of one group, and the others of another. -/
def readingKey (reading : Reading) : FactKey ℕ :=
  .gameplayKey (some [UInt16.ofNat reading.value.toNat])
    (some (jstr (if reading.value < 100 then "p" else "q")))

/-- Actions of the grid at a group. -/
def atGroup (group : String) (actions : List (Slot.Action Bool Reading)) :
    List (Action Bool Recorder.engine) :=
  actions.map fun action => .grid (.transfer (.grid (.key (jstr group) action)))

/-- Two messages of one group wait together, the later of them gets the lock first, and the other
owner crashes in between. -/
def waitTogether : List (Action Bool Recorder.engine) :=
  [.insertFact false ⟨7⟩, .insertFact true ⟨107⟩, .insertFact false ⟨9⟩, .lock 2] ++
    atGroup "p" [.resolve, .merge true, .commit, .insert, .put, .merge true, .commit] ++
    [.lock 0, .grid (.crash true)] ++ atGroup "p" [.resolve, .insert, .put, .commit]

/-- What an action delivers to real channels for a group. -/
def Action.deliveredReal (k : JString) (s : Pipeline T N E) (a : Action N E) :
    List (Delivery E.Message) :=
  (a.onGrid k s).flatMap fun action => action.deliveredReal k s.grid

/-- The inserts of a run deliver what the run of the grid delivers. -/
theorem trace_delivered
    (hspares : (lts E extractKey codec).Guarded (Spares k) (start rules owners) actions)
    (h : (lts E extractKey codec).exec (start rules owners) actions = some s) :
    (lts E extractKey codec).trace (fun s a => a.deliveredReal k s) (start rules owners) actions =
      (Grid.crashLts E codec).trace (fun g a => a.deliveredReal k g) (Grid.start rules owners)
        ((lts E extractKey codec).trace (fun s a => a.onGrid k s) (start rules owners) actions) := by
  refine (inserts extractKey codec k).run_trace _ _ (fun s g a s' hrel hok hs => ?_) ⟨rfl, rfl⟩
    hspares h
  obtain ⟨g', hg', -⟩ := (inserts extractKey codec k).step hrel hok hs
  rcases onGrid_cases k s a with hnone | ⟨action, hone⟩
  · rw [Action.deliveredReal, hnone]
    rfl
  · rw [hone] at hg'
    obtain ⟨g₁, hg₁, -⟩ := (Grid.crashLts E codec).exec_cons_eq_some.1 hg'
    rw [Action.deliveredReal, hone, Lts.trace_cons _ hg₁, List.flatMap_singleton, Lts.trace_nil,
      List.append_nil]
    exact Grid.Agrees.deliveredReal hrel

/-- The messages of one group come one after the other, with one of another group in between. -/
def oneAfterTheOther : List (Action Bool Recorder.engine) :=
  [.insertFact false ⟨7⟩, .insertFact true ⟨107⟩, .lock 0] ++
    atGroup "p" [.resolve, .merge true, .commit, .insert, .put, .merge true, .commit,
      .snapshot true] ++
    [.insertFact true ⟨9⟩, .lock 1] ++ atGroup "p" [.resolve, .insert, .put, .merge false, .commit]

end Run

end Pipeline

end Hacep
