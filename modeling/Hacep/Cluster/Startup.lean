import Hacep.Lib.Lts

/-!
# A node joins

`HACEPImpl.start` starts the caches of a node and registers its listeners, one statement after the
other, while the nodes that have started put facts into the grid. The grid may choose a node as the
primary owner of a key as soon as the node's fact cache runs, and it tells of a new entry only the
listeners that are registered at the primary owner then.

`getFactCache()` starts the cache, and `addListener` registers `FactListenerPost` with it in a
statement of its own: between the two the node is `isDeaf`, and the facts that it owns go to no
session. `inserted_once_iff` says that this is the only way in which a start loses a fact: in a run,
with any number of nodes that start at any time, every fact is passed to `KieSessionSaver.insert` by
exactly one node if and only if no fact meets a primary owner that is deaf.
-/

namespace Hacep

/-! ## The statements of a start -/

/-- A statement of `HACEPImpl.start`, once the flag is set. -/
inductive StartStatement
  /-- `dataGridManager.startCacheInfo(nodeName)`. -/
  | startCacheInfo
  /-- The three `putIfAbsent` of the rules' coordinates. -/
  | putCoordinates
  /-- `rulesManager.start(groupId, artifactId, version)`. -/
  | startRulesManager
  /-- `infoCache.addListener(new UpdateVersionListener(…))`. -/
  | addUpdateVersionListener
  /-- The two `putIfAbsent` of the router's commands. -/
  | putCommands
  /-- `infoCache.addListener(new SuspendResumeListener(…))`. -/
  | addSuspendResumeListener
  /-- `rulesUpdateVersion = …`. -/
  | newRulesUpdateVersion
  /-- `dataGridManager.start(haKieSessionBuilder, nodeName)`: the caches are defined, not started. -/
  | startDataGrid
  /-- `dataGridManager.waitForMinimumOwners(…)`. -/
  | waitForMinimumOwners
  /-- `dataGridManager.getSessionCache()`, for the `KieSessionSaver`. -/
  | getSessionCache
  /-- `dataGridManager.getFactCache()`. -/
  | getFactCache
  /-- `addListener(new FactListenerPost(…))`, on the fact cache. -/
  | addFactListener
  /-- The two `addListener` on the session cache. -/
  | addSessionListeners
  /-- `putter = new PutterImpl(dataGridManager.getFactCache())`. -/
  | newPutter
  /-- `router.start(jmsConfiguration, this)`. -/
  | startRouter
  deriving DecidableEq, Repr

/-- The statements of `start`. -/
def HACEPImpl.start : List StartStatement :=
  [.startCacheInfo, .putCoordinates, .startRulesManager, .addUpdateVersionListener, .putCommands,
    .addSuspendResumeListener, .newRulesUpdateVersion, .startDataGrid, .waitForMinimumOwners,
    .getSessionCache, .getFactCache, .addFactListener, .addSessionListeners, .newPutter,
    .startRouter]

/-- A node, as far as facts go: the rest of its start, its caches, the listeners registered with
them, and whether it has a putter and consumes messages. -/
structure HACEPNode where
  remaining : List StartStatement
  sessionCache : Bool := false
  factCache : Bool := false
  factListeners : ℕ := 0
  sessionListeners : ℕ := 0
  putter : Bool := false
  router : Bool := false
  deriving DecidableEq, Repr

/-- What a statement does to the node; `getCache` starts a cache that does not run. -/
def StartStatement.run (n : HACEPNode) : StartStatement → HACEPNode
  | .getSessionCache => { n with sessionCache := true }
  | .getFactCache => { n with factCache := true }
  | .addFactListener => { n with factListeners := n.factListeners + 1 }
  | .addSessionListeners =>
    { n with sessionCache := true, sessionListeners := n.sessionListeners + 2 }
  | .newPutter => { n with factCache := true, putter := true }
  | .startRouter => { n with router := true }
  | _ => n

namespace HACEPNode

/-- A node before its start. -/
def fresh : HACEPNode := { remaining := HACEPImpl.start }

/-- The next statement of the start. -/
def next (n : HACEPNode) : Option HACEPNode :=
  match n.remaining with
  | [] => none
  | statement :: rest => some { statement.run n with remaining := rest }

/-- The node has started its fact cache, and has not yet registered `FactListenerPost` with it. -/
def isDeaf (n : HACEPNode) : Bool := n.factCache && n.remaining.contains .addFactListener

/-- The node after a number of statements of its start. -/
def after : ℕ → HACEPNode
  | 0 => fresh
  | j + 1 => (after j).next.getD (after j)

/-- The node is at some point of its start. -/
def Reached (n : HACEPNode) : Prop := ∃ j ≤ HACEPImpl.start.length, n = after j

theorem reached_fresh : fresh.Reached := ⟨0, Nat.zero_le _, rfl⟩

/-- A statement of a start leads to the next point of it. -/
theorem Reached.next {n n' : HACEPNode} (h : n.Reached) (hn : n.next = some n') : n'.Reached := by
  obtain ⟨j, hj, rfl⟩ := h
  have hlt : ∀ i ≤ HACEPImpl.start.length,
      (after i).next.isSome = true → i < HACEPImpl.start.length := by decide
  refine ⟨j + 1, hlt j hj (by rw [hn]; rfl), ?_⟩
  rw [after, hn, Option.getD_some]

/-- A node with a fact cache has one listener of facts, unless it is deaf and has none. -/
theorem Reached.factListeners {n : HACEPNode} (h : n.Reached) (hcache : n.factCache = true) :
    n.factListeners = if n.isDeaf then 0 else 1 := by
  obtain ⟨j, hj, rfl⟩ := h
  have hall : ∀ i ≤ HACEPImpl.start.length, (after i).factCache = true →
      (after i).factListeners = if (after i).isDeaf then 0 else 1 := by decide
  exact hall j hj hcache

end HACEPNode

/-! ## The cluster -/

/-- A key or a value of an event, by its class. -/
inductive EventObject (K F : Type)
  | null
  | key (key : K)
  | fact (fact : F)
  | other

variable {N K F : Type}

/-- `checkClass(Key.class, o)`. -/
def EventObject.isKey : EventObject K F → Bool
  | .key _ => true
  | _ => false

/-- `checkClass(Fact.class, o)`. -/
def EventObject.isFact : EventObject K F → Bool
  | .fact _ => true
  | _ => false

/-- `isAnHACEPEvent`, which is `true` when the event is not one. -/
def FactListenerPost.isAnHACEPEvent (key value : EventObject K F) : Bool :=
  !(value.isFact && key.isKey)

/-- `eventReceived`: the call of `saver.insert`, if there is one. -/
def FactListenerPost.eventReceived (key value : EventObject K F) : Option (K × F) :=
  if FactListenerPost.isAnHACEPEvent key value then none
  else match key, value with
    | .key key, .fact fact => some (key, fact)
    | _, _ => none

/-- A fact that was put under a fresh key, and the calls of `KieSessionSaver.insert` that the put
led to, with the nodes that made them. -/
structure Created (N K F : Type) where
  key : K
  fact : F
  inserts : List (N × K × F)

/-- Exactly one node has passed the fact to `KieSessionSaver.insert`. -/
def Created.InsertedOnce (p : Created N K F) : Prop := ∃ node, p.inserts = [(node, p.key, p.fact)]

/-- The nodes of a cluster and its fact cache. `created` records the facts put under fresh keys. -/
structure Cluster (N K F : Type) where
  nodes : N → HACEPNode := fun _ => .fresh
  entries : K → Option F := fun _ => none
  created : List (Created N K F) := []

namespace Cluster

/-- What happens in a cluster. -/
inductive Action (N K F : Type)
  /-- The next statement of a node's start. -/
  | start (node : N)
  /-- `insertFact` on a node, while the grid has another as the primary owner of the fact's key. -/
  | insertFact (node : N) (fact : F) (owner : N)
  /-- An entry expires. -/
  | expire (key : K)

/-- The calls of `KieSessionSaver.insert` at the primary owner of a new entry. -/
def notify (c : Cluster N K F) (owner : N) (key : K) (fact : F) : List (N × K × F) :=
  (List.replicate (c.nodes owner).factListeners owner).flatMap fun node =>
    ((FactListenerPost.eventReceived (.key key) (.fact fact)).map (node, ·)).toList

/-- A node passes a new fact to `KieSessionSaver.insert` when it has the listener, and does not when
it is deaf. -/
theorem notify_of_reached {c : Cluster N K F} {owner : N} (h : (c.nodes owner).Reached)
    (hcache : (c.nodes owner).factCache = true) (key : K) (fact : F) :
    c.notify owner key fact = if (c.nodes owner).isDeaf then [] else [(owner, key, fact)] := by
  unfold notify
  rw [h.factListeners hcache]
  cases (c.nodes owner).isDeaf <;> rfl

variable [DecidableEq N] [DecidableEq K] (extractKey : F → K)

/-- `putter.put(fact)`: a fresh key is a `CacheEntryCreated` at the primary owner. -/
def put (c : Cluster N K F) (fact : F) (owner : N) : Cluster N K F :=
  let key := extractKey fact
  let entries := Function.update c.entries key (some fact)
  match c.entries key with
  | some _ => { c with entries := entries }
  | none => { c with
      entries := entries
      created := c.created ++ [⟨key, fact, c.notify owner key fact⟩] }

/-- The clusters: a node with a putter takes facts, and a node with a fact cache may own them. -/
def lts : Lts (Cluster N K F) (Action N K F) where
  step c
    | .start node => (c.nodes node).next.map fun n =>
      { c with nodes := Function.update c.nodes node n }
    | .insertFact node fact owner =>
      if (c.nodes node).putter && (c.nodes owner).factCache then some (c.put extractKey fact owner)
      else none
    | .expire key => some { c with entries := Function.update c.entries key none }

/-- No fact that is put under a fresh key meets a primary owner that is deaf. -/
def Heard (c : Cluster N K F) : Action N K F → Bool
  | .insertFact _ fact owner => (c.entries (extractKey fact)).isSome || !(c.nodes owner).isDeaf
  | _ => true


section Step

variable {c c' : Cluster N K F} {a : Action N K F}

/-- A step leaves every node at some point of its start. -/
theorem reached_step (h : ∀ n, (c.nodes n).Reached) (hs : (lts extractKey).step c a = some c') :
    ∀ n, (c'.nodes n).Reached := by
  cases a with
  | start node =>
    obtain ⟨m, hm, rfl⟩ := Option.map_eq_some_iff.1 hs
    intro n
    by_cases hn : n = node
    · subst hn
      simpa using (h n).next hm
    · simpa [Function.update_of_ne hn] using h n
  | insertFact node fact owner =>
    simp only [lts, Option.ite_none_right_eq_some] at hs
    obtain ⟨-, hs⟩ := hs
    cases hs
    unfold put
    simp only
    split <;> exact h
  | expire key =>
    cases hs
    exact h

/-- A step records a fact that is put under a fresh key, and nothing else. It has been passed on by
its primary owner, unless that is deaf. -/
theorem created_step (h : ∀ n, (c.nodes n).Reached) (hs : (lts extractKey).step c a = some c') :
    c'.created = c.created ∧ c.Heard extractKey a = true ∨
      ∃ key fact owner, c'.created = c.created ++
        [⟨key, fact, if c.Heard extractKey a then [(owner, key, fact)] else []⟩] := by
  cases a with
  | start node =>
    obtain ⟨m, -, rfl⟩ := Option.map_eq_some_iff.1 hs
    exact .inl ⟨rfl, rfl⟩
  | insertFact node fact owner =>
    simp only [lts, Option.ite_none_right_eq_some, Bool.and_eq_true] at hs
    obtain ⟨⟨-, hcache⟩, hs⟩ := hs
    cases hs
    cases hentry : c.entries (extractKey fact) with
    | some old =>
      left
      simp [put, Heard, hentry]
    | none =>
      right
      refine ⟨extractKey fact, fact, owner, ?_⟩
      simp only [put, hentry, notify_of_reached (h owner) hcache, Heard, Option.isSome_none,
        Bool.false_or]
      cases (c.nodes owner).isDeaf <;> rfl
  | expire key =>
    cases hs
    exact .inl ⟨rfl, rfl⟩

/-- What has been recorded of a fact stays. -/
theorem created_subset (hs : (lts extractKey).step c a = some c') : c.created ⊆ c'.created := by
  cases a with
  | start node =>
    obtain ⟨m, -, rfl⟩ := Option.map_eq_some_iff.1 hs
    exact List.Subset.refl _
  | insertFact node fact owner =>
    simp only [lts, Option.ite_none_right_eq_some] at hs
    obtain ⟨-, hs⟩ := hs
    cases hs
    unfold put
    simp only
    split
    · exact List.Subset.refl _
    · exact List.subset_append_left _ _
  | expire key =>
    cases hs
    exact List.Subset.refl _

end Step

/-- In every run, every fact that was put under a fresh key has been passed to
`KieSessionSaver.insert` by exactly one node if and only if none of them met a primary owner that
was deaf. -/
theorem inserted_once_iff {actions : List (Action N K F)} {c : Cluster N K F}
    (h : (lts extractKey).exec {} actions = some c) :
    (∀ p ∈ c.created, p.InsertedOnce) ↔
      (lts extractKey).Guarded (fun c a => c.Heard extractKey a = true) {} actions := by
  have hstart : ∀ n, (({} : Cluster N K F).nodes n).Reached := fun _ => HACEPNode.reached_fresh
  constructor
  · -- A fact that meets a deaf owner is recorded without a node, and the record stays.
    intro honce
    refine (lts extractKey).guarded_of_exec (fun c a => c.Heard extractKey a = true)
      (fun c => ∀ n, (c.nodes n).Reached) (fun c => ∃ p ∈ c.created, ¬p.InsertedOnce)
      (fun c a c' hi hs => reached_step extractKey hi hs) (fun c a c' hi hs hdeaf => ?_)
      (fun c a c' hbad hs => ?_) hstart h (fun hbad => ?_)
    · rcases created_step extractKey hi hs with ⟨-, hheard⟩ | ⟨key, fact, owner, hcreated⟩
      · exact absurd hheard hdeaf
      · rw [if_neg hdeaf] at hcreated
        refine ⟨⟨key, fact, []⟩, ?_, ?_⟩
        · rw [hcreated]
          exact List.mem_append_right _ (List.mem_singleton_self _)
        · rintro ⟨node, hnode⟩
          cases hnode
    · obtain ⟨p, hp, hnot⟩ := hbad
      exact ⟨p, created_subset extractKey hs hp, hnot⟩
    · obtain ⟨p, hp, hnot⟩ := hbad
      exact hnot (honce p hp)
  · -- Otherwise each of them is recorded with its primary owner.
    intro hheard
    refine ((lts extractKey).exec_guarded_invariant (fun c a => c.Heard extractKey a = true)
      (fun c => (∀ n, (c.nodes n).Reached) ∧ ∀ p ∈ c.created, p.InsertedOnce)
      (fun c a c' hi hok hs => ⟨reached_step extractKey hi.1 hs, fun p hp => ?_⟩)
      ⟨hstart, fun p hp => (nomatch hp)⟩ hheard h).2
    rcases created_step extractKey hi.1 hs with ⟨hsame, -⟩ | ⟨key, fact, owner, hcreated⟩
    · rw [hsame] at hp
      exact hi.2 p hp
    · rw [hcreated, if_pos hok] at hp
      rcases List.mem_append.1 hp with hp | hp
      · exact hi.2 p hp
      · rw [List.mem_singleton.1 hp]
        exact ⟨owner, rfl⟩

/-- A node has started; another one starts, as far as its fact cache, and then to the end. -/
def startTwo (n : ℕ) : List (Action Bool ℕ ℕ) :=
  List.replicate 15 (.start false) ++ List.replicate n (.start true)

/-- Facts that the first node puts while the second one starts and after, of which the second one
owns those from its listener on. -/
def putsWhileStarting : List (Action Bool ℕ ℕ) :=
  startTwo 11 ++ [.insertFact false 1 false, .start true, .insertFact false 2 true, .expire 2,
    .start true, .insertFact false 2 true, .insertFact false 1 true]

/-- None of them is lost. -/
theorem inserted_once_iff_putsWhileStarting :
    ∃ c : Cluster Bool ℕ ℕ, (lts id).exec {} putsWhileStarting = some c ∧
      c.created.map Created.fact = [1, 2, 2] ∧ ∀ p ∈ c.created, p.InsertedOnce := by
  have hrun : ((lts id).exec {} putsWhileStarting).any fun c =>
      decide (c.created.map Created.fact = [1, 2, 2]) := by
    decide +kernel
  obtain ⟨c, hc, hfacts⟩ := (Option.any_eq_true _ _).1 hrun
  exact ⟨c, hc, of_decide_eq_true hfacts, (inserted_once_iff id hc).2 (by decide +kernel)⟩

/-- A fact that the second node owns between the start of its fact cache and its listener. -/
def putWhileDeaf : List (Action Bool ℕ ℕ) := startTwo 11 ++ [.insertFact false 1 true]

/-- No node passes it to `KieSessionSaver.insert`. -/
theorem putWhileDeaf_loses :
    ∃ c : Cluster Bool ℕ ℕ, (lts id).exec {} (putWhileDeaf ++ List.replicate 4 (.start true)) =
        some c ∧ (c.nodes true).remaining = [] ∧
      ∃ p ∈ c.created, p.fact = 1 ∧ p.inserts = [] ∧ ¬p.InsertedOnce := by
  have hrun : ((lts id).exec {} (putWhileDeaf ++ List.replicate 4 (.start true))).any fun c =>
      decide ((c.nodes true).remaining = []) &&
        c.created.any fun p => decide (p.fact = 1 ∧ p.inserts = []) := by
    decide +kernel
  obtain ⟨c, hc, hlost⟩ := (Option.any_eq_true _ _).1 hrun
  rw [Bool.and_eq_true, List.any_eq_true] at hlost
  obtain ⟨hdone, p, hp, hnone⟩ := hlost
  obtain ⟨hfact, hinserts⟩ := of_decide_eq_true hnone
  refine ⟨c, hc, of_decide_eq_true hdone, p, hp, hfact, hinserts, ?_⟩
  rintro ⟨node, hnode⟩
  rw [hinserts] at hnode
  cases hnode

end Cluster

end Hacep
