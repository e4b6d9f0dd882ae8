import Hacep.Cluster.Startup
import Hacep.Lib.Java

/-!
# Facts that the fact cache swallows

`insertFact` puts a fact into the fact cache under its key, and the created event of the entry hands
it to `KieSessionSaver.insert`. A put under a key that the cache has already modifies an entry, and
a modification has no listener. Which keys the cache has is up to their `equals` and `hashCode`:
`Key` compares groups only, and `GameplayKey` and `UserEventKey` also compare ids, so that a key of
a class that adds nothing but `getId()` finds the entry of any other fact of its group.

In a run of puts and expiries, in which no two facts have the same group and id, every fact leads to
one insert under its own group exactly when no fact with such a key is put while the cache has an
entry that the key finds by its group (`insertedOnce_iff`). A put that finds an entry inserts
nothing, and no later step makes up for it, so that the number of inserts already tells the two
cases apart.
-/

namespace Hacep

open Java

/-- `s.hashCode()`. -/
def stringHash (s : JString) : Int32 := s.foldl (fun h c => 31 * h + Int32.ofNat c.toNat) 0

/-- `Objects.hash(…)`, of the hash codes of its arguments. -/
def objectsHash (hashes : List Int32) : Int32 := hashes.foldl (fun h c => 31 * h + c) 1

/-- A key of a fact. `none` is `null`. -/
inductive FactKey (T : Type)
  | gameplayKey (id player : Option JString)
  | userEventKey (id group : Option JString)
  /-- A key of one of the other classes, which supply `getId()` and nothing else. -/
  | other (className : ℕ) (group : Option JString) (id : Option T)
  deriving DecidableEq, Repr

namespace FactKey

variable {T : Type}

/-- `getGroup`. -/
def getGroup : FactKey T → Option JString
  | .gameplayKey _ player => player
  | .userEventKey _ group => group
  | .other _ group _ => group

/-- `getId`. -/
def getId : FactKey T → Option (JString ⊕ T)
  | .gameplayKey id _ => id.map .inl
  | .userEventKey id _ => id.map .inl
  | .other _ _ id => id.map .inr

/-- `Key.equals`, for another key. -/
def equalsKey (this o : FactKey T) : Bool := this.getGroup == o.getGroup

/-- `equals`, for another key. -/
def equals (this o : FactKey T) : Bool :=
  match this with
  | .gameplayKey id _ =>
    match o with
    | .gameplayKey id' _ => this.equalsKey o && id == id'
    | _ => false
  | .userEventKey id _ =>
    match o with
    | .userEventKey id' _ => this.equalsKey o && id == id'
    | _ => false
  | .other _ _ _ => this.equalsKey o

/-- The hash code of a string, or of `null`. -/
def hashOrZero (s : Option JString) : Int32 := (s.map stringHash).getD 0

/-- `Key.hashCode`. -/
def hashCodeKey (this : FactKey T) : Int32 := objectsHash [hashOrZero this.getGroup]

/-- `hashCode`. -/
def hashCode (this : FactKey T) : Int32 :=
  match this with
  | .gameplayKey id _ => objectsHash [this.hashCodeKey, hashOrZero id]
  | .userEventKey id _ => objectsHash [this.hashCodeKey, hashOrZero id]
  | .other _ _ _ => this.hashCodeKey

/-- A map finds the entry of a key when the hash codes are the same and the key that is asked for
equals the one of the entry. -/
def finds (key stored : FactKey T) : Bool := key.hashCode == stored.hashCode && key.equals stored

/-- The key has the `equals` of `Key`. -/
def comparesGroupOnly : FactKey T → Bool
  | .other _ _ _ => true
  | _ => false

/-- The two keys have the same group and the same id. -/
def Same (key key' : FactKey T) : Prop := key.getGroup = key'.getGroup ∧ key.getId = key'.getId

instance [DecidableEq T] (key key' : FactKey T) : Decidable (key.Same key') := instDecidableAnd

/-- A key finds another one with a different group or id by its group alone, and only when it has
the `equals` of `Key`. -/
theorem finds_iff {key stored : FactKey T} (h : ¬stored.Same key) :
    key.finds stored = true ↔ key.comparesGroupOnly = true ∧ stored.getGroup = key.getGroup ∧
      stored.hashCode = key.hashCode := by
  have hids : key.comparesGroupOnly = false → key.equals stored = false := by
    intro hgroup
    by_contra hequals
    apply h
    cases key <;> cases stored <;>
      simp_all [comparesGroupOnly, equals, equalsKey, Same, getGroup, getId]
  simp only [finds, Bool.and_eq_true, beq_iff_eq]
  cases hgroup : key.comparesGroupOnly with
  | false => simp [hids hgroup]
  | true =>
    have hequals : key.equals stored = key.equalsKey stored := by
      cases key with
      | gameplayKey id player => cases hgroup
      | userEventKey id group => cases hgroup
      | other className group id => rfl
    simp only [hequals, equalsKey, beq_iff_eq, true_and]
    constructor
    · exact fun h => ⟨h.2.symm, h.1.symm⟩
    · exact fun h => ⟨h.2.symm, h.1.symm⟩

/-- Keys of the other classes find each other by the group. -/
theorem finds_other (className className' : ℕ) (group : Option JString) (id id' : Option T) :
    (other className group id).finds (other className' group id') = true := by
  simp [finds, equals, equalsKey, hashCode, hashCodeKey, getGroup]

end FactKey

/-- The entries of the fact cache, and the calls of `KieSessionSaver.insert`: each fact with the key
of the session that it was inserted into. -/
structure FactCache (T F : Type) where
  entries : List (FactKey T × F) := []
  inserted : List (Option JString × F) := []
  deriving DecidableEq

namespace FactCache

/-- What happens to the fact cache. -/
inductive Action (F : Type)
  /-- `insertFact`. -/
  | insertFact (fact : F)
  /-- An entry expires. -/
  | expire (entry : ℕ)
  deriving DecidableEq, Repr

section Run

variable {T F : Type}

/-- The cache has an entry for the key. -/
def containsKey (c : FactCache T F) (key : FactKey T) : Bool :=
  c.entries.any fun entry => key.finds entry.1

/-- `KieSessionSaver.insert`, of what the created event of an entry has. -/
def created (key : FactKey T) (fact : F) : List (Option JString × F) :=
  ((FactListenerPost.eventReceived (.key key) (.fact fact)).map fun (key, fact) =>
    (key.getGroup, fact)).toList

/-- The entries, with another value in the entry of a key. -/
def setValue (entries : List (FactKey T × F)) (key : FactKey T) (fact : F) : List (FactKey T × F) :=
  entries.modify (entries.findIdx fun entry => key.finds entry.1) fun entry => (entry.1, fact)

/-- `cache.put(key, fact)`: an entry is modified, or it is created. -/
def put (c : FactCache T F) (key : FactKey T) (fact : F) : FactCache T F :=
  if c.containsKey key then { c with entries := setValue c.entries key fact }
  else { entries := c.entries ++ [(key, fact)], inserted := c.inserted ++ created key fact }

variable (extractKey : F → FactKey T)

/-- The fact cache through puts and expiries. -/
def lts : Lts (FactCache T F) (Action F) where
  step
    | c, .insertFact fact => some (c.put (extractKey fact) fact)
    | c, .expire entry => some { c with entries := c.entries.eraseIdx entry }

/-- The facts that are put, in order. -/
def facts : List (Action F) → List F
  | [] => []
  | .insertFact fact :: actions => fact :: facts actions
  | .expire _ :: actions => facts actions

/-- The insert that a fact should lead to. -/
def ownInsert (fact : F) : Option JString × F := ((extractKey fact).getGroup, fact)

/-- The fact has led to one insert, under its own group. -/
def InsertedOnce [DecidableEq F] (c : FactCache T F) (fact : F) : Prop :=
  c.inserted.filter (fun insert => insert.2 = fact) = [ownInsert extractKey fact]

/-- No entry is found by the group alone when a fact is put. -/
def NotSwallowed (c : FactCache T F) : Action F → Prop
  | .insertFact fact =>
    ¬∃ entry ∈ c.entries, (extractKey fact).comparesGroupOnly = true ∧
      entry.1.getGroup = (extractKey fact).getGroup ∧
      entry.1.hashCode = (extractKey fact).hashCode
  | .expire _ => True

instance (c : FactCache T F) (action : Action F) : Decidable (NotSwallowed extractKey c action) := by
  cases action with
  | insertFact fact => exact instDecidableNot
  | expire entry => exact isTrue trivial

/-- The key of a fact that is put finds no entry. -/
def Creates (c : FactCache T F) : Action F → Prop
  | .insertFact fact => c.containsKey (extractKey fact) = false
  | .expire _ => True

variable {extractKey} {c c' : FactCache T F} {actions : List (Action F)}

/-- A put under a new key leads to the insert of the fact, and any other put to none. -/
theorem put_inserted (c : FactCache T F) (fact : F) :
    (c.put (extractKey fact) fact).inserted =
      if c.containsKey (extractKey fact) then c.inserted
      else c.inserted ++ [ownInsert extractKey fact] := by
  unfold put
  split <;> rfl

/-- What a run inserts is some of the facts that it puts, in their order and under their own groups,
and all of them when every put creates an entry. -/
theorem exec_inserted : ∀ {c : FactCache T F}, (lts extractKey).exec c actions = some c' →
    ∃ log, c'.inserted = c.inserted ++ log ∧
      log.Sublist ((facts actions).map (ownInsert extractKey)) ∧
      (log.length = (facts actions).length ↔
        (lts extractKey).Guarded (Creates extractKey) c actions) := by
  induction actions with
  | nil =>
    intro c h
    rw [Lts.exec_nil, Option.some.injEq] at h
    exact ⟨[], by rw [h, List.append_nil], List.Sublist.refl _, iff_of_true rfl trivial⟩
  | cons action actions ih =>
    intro c h
    obtain ⟨c₁, hstep, h⟩ := (lts extractKey).exec_cons_eq_some.1 h
    obtain ⟨log, hlog, hsub, hlength⟩ := ih h
    have hguarded : (lts extractKey).Guarded (Creates extractKey) c (action :: actions) ↔
        Creates extractKey c action ∧ (lts extractKey).Guarded (Creates extractKey) c₁ actions :=
      (lts extractKey).guarded_cons_iff hstep
    cases action with
    | insertFact fact =>
      obtain rfl : c.put (extractKey fact) fact = c₁ := Option.some.inj hstep
      rw [put_inserted] at hlog
      by_cases hfound : c.containsKey (extractKey fact) = true
      · -- The fact is swallowed, and the log stays one insert short.
        rw [if_pos hfound] at hlog
        refine ⟨log, hlog, hsub.cons _, iff_of_false ?_ fun hall => ?_⟩
        · have hle := hsub.length_le
          rw [List.length_map] at hle
          rw [facts, List.length_cons]
          omega
        · have hnone : c.containsKey (extractKey fact) = false := (hguarded.1 hall).1
          rw [hfound] at hnone
          cases hnone
      · -- The fact is inserted, as it should be.
        rw [if_neg hfound, List.append_assoc] at hlog
        refine ⟨ownInsert extractKey fact :: log, hlog, hsub.cons_cons _, ?_⟩
        have hcreates : Creates extractKey c (.insertFact fact) := Bool.eq_false_iff.2 hfound
        rw [hguarded, ← hlength, facts, List.length_cons, List.length_cons, and_iff_right hcreates,
          Nat.add_right_cancel_iff]
    | expire entry =>
      obtain rfl : _ = c₁ := Option.some.inj hstep
      exact ⟨log, hlog, hsub, by rw [hguarded, ← hlength]; exact (and_iff_right trivial).symm⟩

/-- Where all facts that are put are inserted, each of several different ones is inserted once. -/
theorem insertedOnce_of_all [DecidableEq F] {all : List F} (hnodup : all.Nodup)
    (h : c.inserted = all.map (ownInsert extractKey)) {fact : F} (hfact : fact ∈ all) :
    c.InsertedOnce extractKey fact := by
  have hcount : all.count fact = 1 := List.count_eq_one_of_mem hnodup hfact
  rw [InsertedOnce, h, List.filter_map]
  have hsame : all.filter ((fun insert : Option JString × F => decide (insert.2 = fact)) ∘
      ownInsert extractKey) = [fact] := by
    rw [← List.replicate_one, ← hcount, ← List.filter_eq]
    rfl
  rw [hsame]
  rfl

/-- A put leaves the keys of the entries, and adds its own at most. -/
theorem mem_put {key : FactKey T} {fact : F} {entry : FactKey T × F}
    (h : entry ∈ (c.put key fact).entries) : entry.1 = key ∨ ∃ e ∈ c.entries, e.1 = entry.1 := by
  unfold put at h
  split at h
  · obtain ⟨i, hi, rfl⟩ := List.mem_iff_getElem.1 h
    simp only [setValue, List.length_modify] at hi
    refine .inr ⟨c.entries[i], List.getElem_mem hi, ?_⟩
    simp only [setValue, List.getElem_modify]
    split <;> rfl
  · obtain h | h := List.mem_append.1 h
    · exact .inr ⟨entry, h, rfl⟩
    · rw [List.mem_singleton.1 h]
      exact .inl rfl

/-- Where the cache has no entry with the group and id of a fact, the key of the fact finds an entry
by its group alone. -/
theorem creates_iff {action : Action F}
    (h : ∀ entry ∈ c.entries, ∀ fact ∈ facts [action], ¬entry.1.Same (extractKey fact)) :
    Creates extractKey c action ↔ NotSwallowed extractKey c action := by
  cases action with
  | insertFact fact =>
    have hfinds : ∀ entry ∈ c.entries, (extractKey fact).finds entry.1 = true ↔ _ :=
      fun entry hentry => FactKey.finds_iff (h entry hentry fact List.mem_cons_self)
    simp only [Creates, NotSwallowed, containsKey, Bool.eq_false_iff, ne_eq, List.any_eq_true]
    refine not_congr (exists_congr fun entry => and_congr_right fun hentry => hfinds entry hentry)
  | expire entry => exact Iff.rfl

/-- In a run of facts with different keys, a put finds an entry by the group alone. -/
theorem guarded_creates_iff : ∀ {c : FactCache T F},
    (facts actions).Pairwise (fun fact fact' => ¬(extractKey fact).Same (extractKey fact')) →
    (∀ entry ∈ c.entries, ∀ fact ∈ facts actions, ¬entry.1.Same (extractKey fact)) →
    ((lts extractKey).Guarded (Creates extractKey) c actions ↔
      (lts extractKey).Guarded (NotSwallowed extractKey) c actions) := by
  induction actions with
  | nil => exact fun _ _ => Iff.rfl
  | cons action actions ih =>
    intro c hkeys hentries
    -- The entries after the action are old ones, or that of the fact that has been put.
    have hnext : (facts actions).Pairwise
          (fun fact fact' => ¬(extractKey fact).Same (extractKey fact')) ∧
        ∀ c₁, (lts extractKey).step c action = some c₁ →
          ∀ entry ∈ c₁.entries, ∀ fact ∈ facts actions, ¬entry.1.Same (extractKey fact) := by
      cases action with
      | insertFact fact =>
        obtain ⟨hfact, hkeys⟩ := List.pairwise_cons.1 hkeys
        refine ⟨hkeys, ?_⟩
        rintro c₁ hc₁ entry hentry fact' hfact'
        cases hc₁
        obtain hkey | ⟨e, he, hkey⟩ := mem_put hentry
        · rw [hkey]
          exact hfact fact' hfact'
        · rw [← hkey]
          exact hentries e he fact' (List.mem_cons_of_mem _ hfact')
      | expire i =>
        refine ⟨hkeys, ?_⟩
        rintro c₁ hc₁ entry hentry fact' hfact'
        cases hc₁
        exact hentries entry (List.mem_of_mem_eraseIdx hentry) fact' hfact'
    have hfirst : ∀ entry ∈ c.entries, ∀ fact ∈ facts [action],
        ¬entry.1.Same (extractKey fact) := by
      intro entry hentry fact hfact
      refine hentries entry hentry fact ?_
      cases action with
      | insertFact fact' =>
        rw [List.mem_singleton.1 hfact]
        exact List.mem_cons_self
      | expire i => cases hfact
    rw [Lts.Guarded, Lts.Guarded]
    refine and_congr (creates_iff hfirst) (forall_congr' fun c₁ => ?_)
    exact forall_congr' fun hc₁ => ih hnext.1 (hnext.2 c₁ hc₁)

/-- In a run from an empty cache, in which no two facts have the same group and id, every fact leads
to one insert, under its own group, exactly when no fact is put while its key finds an entry by the
group alone. -/
theorem insertedOnce_iff [DecidableEq F] {actions : List (Action F)} {c : FactCache T F}
    (hkeys : (facts actions).Pairwise
      fun fact fact' => ¬(extractKey fact).Same (extractKey fact'))
    (h : (lts extractKey).exec {} actions = some c) :
    (∀ fact ∈ facts actions, c.InsertedOnce extractKey fact) ↔
      (lts extractKey).Guarded (NotSwallowed extractKey) {} actions := by
  have hnodup : (facts actions).Nodup :=
    hkeys.imp fun hsame (heq : _ = _) => hsame (by rw [heq]; exact ⟨rfl, rfl⟩)
  obtain ⟨log, hlog, hsub, hlength⟩ := exec_inserted h
  rw [List.nil_append] at hlog
  rw [← guarded_creates_iff hkeys fun entry hentry => absurd hentry List.not_mem_nil, ← hlength]
  constructor
  · -- As many facts as were put have been inserted.
    intro honce
    have hmem : facts actions ⊆ log.map Prod.snd := by
      intro fact hfact
      have hown : ownInsert extractKey fact ∈ c.inserted.filter fun insert => insert.2 = fact := by
        rw [honce fact hfact]
        exact List.mem_singleton_self _
      rw [hlog] at hown
      exact List.mem_map_of_mem (List.mem_of_mem_filter hown)
    have hle := (hnodup.subperm hmem).length_le
    have hge := hsub.length_le
    rw [List.length_map] at hle hge
    omega
  · intro hall fact hfact
    have hwhole := hsub.eq_of_length (by rw [hall, List.length_map])
    exact insertedOnce_of_all hnodup (hlog.trans hwhole) hfact

end Run

/-- A fact of a class whose keys add `getId()` only, or one of the game's facts. -/
structure PlayerFact where
  bare : Bool
  id : ℕ
  deriving DecidableEq, Repr

/-- Its key, for one player. -/
def PlayerFact.extractKey (fact : PlayerFact) : FactKey ℕ :=
  if fact.bare then .other 0 (some (jstr "p")) (some fact.id)
  else .gameplayKey (some [UInt16.ofNat fact.id]) (some (jstr "p"))

/-- The facts of the game with different ids are inserted, and so is one with a bare key once the
entry of another has expired. -/
theorem insertedOnce_iff_expired :
    ∃ c, (lts PlayerFact.extractKey).exec {} [.insertFact ⟨false, 1⟩, .insertFact ⟨false, 2⟩,
        .insertFact ⟨true, 1⟩, .expire 2, .insertFact ⟨true, 2⟩] = some c ∧
      ∀ fact ∈ [⟨false, 1⟩, ⟨false, 2⟩, ⟨true, 1⟩, ⟨true, 2⟩],
        c.InsertedOnce PlayerFact.extractKey fact := by
  obtain ⟨c, h⟩ : ∃ c, (lts PlayerFact.extractKey).exec {} [.insertFact ⟨false, 1⟩,
    .insertFact ⟨false, 2⟩, .insertFact ⟨true, 1⟩, .expire 2, .insertFact ⟨true, 2⟩] = some c :=
    ⟨_, rfl⟩
  exact ⟨c, h, (insertedOnce_iff (by decide +kernel) h).2 (by decide +kernel)⟩

/-- Of two facts with bare keys of one group the second is swallowed. -/
theorem bareKeys_swallow :
    (lts PlayerFact.extractKey).exec {} [.insertFact ⟨true, 1⟩, .insertFact ⟨true, 2⟩] =
        some { entries := [(.other 0 (some (jstr "p")) (some 1), ⟨true, 2⟩)]
               inserted := [(some (jstr "p"), ⟨true, 1⟩)] } ∧
      ¬(PlayerFact.extractKey ⟨true, 1⟩).Same (PlayerFact.extractKey ⟨true, 2⟩) := by
  decide +kernel

end FactCache

end Hacep
