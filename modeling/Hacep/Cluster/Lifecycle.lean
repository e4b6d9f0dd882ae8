import Hacep.Cluster.Startup
import Hacep.RulesManager

/-!
# Starting and stopping a node

A node consists of a rules manager, two cache managers and a router. Each of them guards its start
and its stop with a flag of its own, which `compareAndSet` changes before the work is done, and
which stays as it is when the work throws. `HACEPImpl.start` makes a new rules manager and a new
data grid manager each time and keeps the router; when a statement of it throws, it clears the flag
of the node and stops nothing.

The model is the flags and what really runs, for any outcome of every piece of work. What is wanted
is `AllOrNothing`, and there are two ways in which it fails. A start that throws leaves what it has
started, or at least the flag of the information cache where that has not started
(`start_of_throws`), and the next start takes a router that is marked as started for one that runs.
A stop that throws leaves the components that it has not come to, which no stop reaches any more
once a start has replaced them, and a flag that is cleared where the work of the inner stop was not
done (`stop_of_throws`). `allOrNothing_iff` says that there is no third one.
-/

namespace Hacep

open Java

namespace Lifecycle

/-! ## The components -/

/-- What a node starts and stops. The two cache managers are fields of `DataGridManager`, which has
a flag for each. -/
inductive Part
  | rulesManager
  | cacheInfo
  | dataGrid
  | router
  deriving DecidableEq, Repr

/-- How a piece of work ends: when it throws, the work may have been `done` before. -/
inductive Outcome
  | returns
  | throws (e : Throwable) (done : Bool)
  deriving DecidableEq, Repr

/-- The work has been done. -/
def Outcome.done : Outcome → Bool
  | .returns => true
  | .throws _ done => done

/-- A component: its flag, and whether it really runs. -/
structure Component where
  started : Bool := false
  running : Bool := false
  deriving DecidableEq, Repr

/-- The flag is true exactly when the component runs. -/
def Component.Exact (c : Component) : Prop := c.started = c.running

/-- `if (started.compareAndSet(!on, on)) { … }`, where the work makes the component run or not. -/
def Component.turn (on : Bool) (o : Outcome) : Method PEmpty Component Unit := do
  let c ← this
  onlyIf (c.started != on) do
    modifyThis fun c => { c with started := on }
    match o with
    | .returns => modifyThis fun c => { c with running := on }
    | .throws e done => do
      modifyThis fun c => { c with running := if done then on else c.running }
      throw e

/-- `RulesManager.start`, the two starts of `DataGridManager`, `CamelRouter.start`. -/
def Component.start (o : Outcome) : Method PEmpty Component Unit := Component.turn true o

/-- `RulesManager.stop`, the two halves of `DataGridManager.stop`, `CamelRouter.stop`. -/
def Component.stop (o : Outcome) : Method PEmpty Component Unit := Component.turn false o

/-- A rules manager runs when it has a container. -/
def ofRulesManager (rm : RulesManager) : Component := ⟨rm.started, rm.kieContainer.isSome⟩

/-- What a start does to the flag and the container of a rules manager is a start of a component.
-/
theorem ofRulesManager_start {F : Type} (E : KieEngine F) (g a v : Option JString)
    (rm : RulesManager) :
    ∃ o, returned (RulesManager.start E g a v ⟨rm, []⟩) =
        returned (Component.start o ⟨ofRulesManager rm, []⟩) ∧
      ofRulesManager (finalFrame (RulesManager.start E g a v ⟨rm, []⟩)).this =
        (finalFrame (Component.start o ⟨ofRulesManager rm, []⟩)).this := by
  unfold ofRulesManager
  cases hstarted : rm.started with
  | true =>
    have hrules : RulesManager.start E g a v ⟨rm, []⟩ = .ok () ⟨rm, []⟩ := by
      simp only [RulesManager.start, bind_of_ok this_run, hstarted, Bool.not_true, onlyIf_false,
        pure_run]
    rw [hrules]
    refine ⟨.returns, rfl, ?_⟩
    simp only [finalFrame, hstarted]
    rfl
  | false =>
    simp only [RulesManager.start, bind_of_ok this_run, hstarted, Bool.not_false, onlyIf_true,
      bind_of_ok (modifyThis_run _)]
    cases hcheck : rm.checkCoordinates E (g.getD []) (a.getD []) (v.getD []) with
    | error e =>
      -- The coordinates are refused before there is a container.
      exact ⟨.throws e false, rfl, rfl⟩
    | ok _ =>
      simp only [bind_of_ok (lift_ok _)]
      cases hcontainer : rm.newKieContainer E (v.getD []) with
      | error e => exact ⟨.throws e false, rfl, rfl⟩
      | ok container => exact ⟨.returns, rfl, rfl⟩

/-! ## The node -/

/-- The fields of `HACEPImpl` that a start or a stop looks at. `replaced` keeps the managers that
an earlier start made and a later one has put others in the place of; before the first start there
are none, which is like having some that nothing has started. -/
structure Node where
  started : Bool := false
  parts : Part → Component := fun _ => {}
  replaced : List Component := []

namespace Node

/-- A call on one of the node's components, which keeps what it has done when it throws. -/
def onPart (p : Part) (m : Method PEmpty Component Unit) : Method PEmpty Node Unit := fun fr =>
  let write (fr' : Frame PEmpty Component) : Frame PEmpty Node :=
    ⟨{ fr.this with parts := Function.update fr.this.parts p fr'.this }, fr'.out⟩
  match m ⟨fr.this.parts p, fr.out⟩ with
  | .ok _ fr' => .ok () (write fr')
  | .error e fr' => .error e (write fr')

/-- `new RulesManager(rulesConfiguration)` and `new DataGridManager()`. -/
def newManagers (n : Node) : Node :=
  { n with
    parts := fun p => if p = .router then n.parts p else {}
    replaced := [n.parts .rulesManager, n.parts .cacheInfo, n.parts .dataGrid] ++ n.replaced }

/-- A statement that makes a component run or not, or that touches none and may throw as well. -/
def turn (on : Bool) (o : Outcome) : Option Part → Method PEmpty Node Unit
  | some p => onPart p (Component.turn on o)
  | none =>
    match o with
    | .returns => pure ()
    | .throws e _ => throw e

end Node

/-- The component that a statement of a start starts. -/
def startedBy : StartStatement → Option Part
  | .startCacheInfo => some .cacheInfo
  | .startRulesManager => some .rulesManager
  | .startDataGrid => some .dataGrid
  | .startRouter => some .router
  | _ => none

namespace Node

/-- `HACEPImpl.start`. -/
def start (o : StartStatement → Outcome) : Method PEmpty Node Unit := do
  let n ← this
  onlyIf (!n.started) do
    modifyThis fun n => { n with started := true }
    catching
      (do
        modifyThis newManagers
        forM HACEPImpl.start fun statement => turn true (o statement) (startedBy statement))
      fun e => do
        modifyThis fun n => { n with started := false }
        throw (.runtimeException e)

/-- `DataGridManager.stop`. -/
def stopDataGridManager (o : Part → Outcome) : Method PEmpty Node Unit := do
  onPart .dataGrid (Component.stop (o .dataGrid))
  onPart .cacheInfo (Component.stop (o .cacheInfo))

/-- `HACEPImpl.stop`. -/
def stop (o : Part → Outcome) : Method PEmpty Node Unit := do
  let n ← this
  onlyIf n.started do
    modifyThis fun n => { n with started := false }
    catching
      (do
        onPart .router (Component.stop (o .router))
        stopDataGridManager o
        onPart .rulesManager (Component.stop (o .rulesManager)))
      fun e => throw (.runtimeException e)

end Node

/-! ## One call -/

section Component

variable (on : Bool) {c : Component}

/-- Work that returns on a component whose flag is exact leaves it running, or not, and exact. -/
theorem Component.turn_returns (h : c.Exact) :
    Component.turn on .returns ⟨c, []⟩ = .ok () ⟨⟨on, on⟩, []⟩ := by
  obtain ⟨started, running⟩ := c
  have hexact : started = running := h
  subst hexact
  cases on <;> cases started <;> rfl

/-- Work that throws leaves the flag as if it had been done. -/
theorem Component.turn_throws (e : Throwable) (done : Bool) :
    Component.turn on (.throws e done) ⟨⟨!on, !on⟩, []⟩ =
      .error e ⟨⟨on, if done then on else !on⟩, []⟩ := by
  cases on <;> rfl

end Component

namespace Node

/-- The node with some of its components running, or not, and with flags that say so. -/
def turned (on : Bool) (l : List Part) (n : Node) : Node :=
  { n with parts := fun p => if p ∈ l then ⟨on, on⟩ else n.parts p }

@[simp]
theorem turned_nil (on : Bool) (n : Node) : n.turned on [] = n := by
  simp [turned]

theorem turned_turned (on : Bool) (l l' : List Part) (n : Node) :
    (n.turned on l).turned on l' = n.turned on (l ++ l') := by
  simp only [turned, List.mem_append, Node.mk.injEq, true_and, and_true]
  funext p
  by_cases hp : p ∈ l <;> by_cases hp' : p ∈ l' <;> simp [hp, hp']

/-- Turning components keeps the flags exact. -/
theorem exact_turned (on : Bool) (l : List Part) {n : Node} (h : ∀ p, (n.parts p).Exact)
    (p : Part) : ((n.turned on l).parts p).Exact := by
  unfold turned
  simp only
  split
  · rfl
  · exact h p

section Turn

variable {n : Node} {p : Part} {m : Method PEmpty Component Unit} {c : Component}

/-- A call on a component that returns writes what the call leaves of it. -/
theorem onPart_of_ok (h : m ⟨n.parts p, []⟩ = .ok () ⟨c, []⟩) :
    onPart p m ⟨n, []⟩ = .ok () ⟨{ n with parts := Function.update n.parts p c }, []⟩ := by
  simp only [onPart, h]

/-- So does one that throws. -/
theorem onPart_of_error {e : Throwable} (h : m ⟨n.parts p, []⟩ = .error e ⟨c, []⟩) :
    onPart p m ⟨n, []⟩ = .error e ⟨{ n with parts := Function.update n.parts p c }, []⟩ := by
  simp only [onPart, h]

/-- A statement that returns makes its component run, or not. -/
theorem turn_returns (on : Bool) (part : Option Part) (h : ∀ p, (n.parts p).Exact) :
    turn on .returns part ⟨n, []⟩ = .ok () ⟨n.turned on part.toList, []⟩ := by
  cases part with
  | none =>
    rw [Option.toList_none, turned_nil]
    rfl
  | some p =>
    have hparts : { n with parts := Function.update n.parts p ⟨on, on⟩ } = n.turned on [p] := by
      simp only [turned, List.mem_singleton, Node.mk.injEq, true_and, and_true]
      funext q
      exact Function.update_apply ..
    rw [Option.toList_some, ← hparts]
    exact onPart_of_ok (Component.turn_returns on (h p))

/-- A statement that throws leaves the flag of its component as if it had returned. -/
theorem turn_throws {on : Bool} {part : Option Part} (e : Throwable) (done : Bool)
    (h : ∀ p ∈ part, n.parts p = ⟨!on, !on⟩) :
    ∃ parts, turn on (.throws e done) part ⟨n, []⟩ = .error e ⟨{ n with parts := parts }, []⟩ ∧
      (∀ p ∈ part, parts p = ⟨on, if done then on else !on⟩) ∧
      ∀ p ∉ part, parts p = n.parts p := by
  cases part with
  | none => exact ⟨n.parts, rfl, fun p hp => (nomatch hp), fun p _ => rfl⟩
  | some p =>
    have hturn := Component.turn_throws on e done
    rw [← h p rfl] at hturn
    refine ⟨_, onPart_of_error hturn, fun q hq => ?_, fun q hq => ?_⟩
    · obtain rfl : p = q := Option.some.inj hq
      exact Function.update_self ..
    · exact Function.update_of_ne (fun hqp => hq (congrArg some hqp.symm)) ..

end Turn

section TurnAll

variable {α : Type} (on : Bool) (part : α → Option Part) {o : α → Outcome} {l : List α} {n : Node}

/-- Statements that all return make their components run, or not. -/
theorem turnAll_returns (h : ∀ p, (n.parts p).Exact) (ho : ∀ a ∈ l, o a = .returns) :
    forM l (fun a => turn on (o a) (part a)) ⟨n, []⟩ =
      .ok () ⟨n.turned on (l.filterMap part), []⟩ := by
  induction l generalizing n with
  | nil =>
    rw [List.filterMap_nil, turned_nil]
    rfl
  | cons a l ih =>
    have hfirst := turn_returns on (part a) h
    rw [← ho a List.mem_cons_self] at hfirst
    have hrest := ih (n := n.turned on (part a).toList) (exact_turned on _ h)
      fun b hb => ho b (List.mem_cons_of_mem a hb)
    have hlist : (a :: l).filterMap part = (part a).toList ++ l.filterMap part := by
      cases hpart : part a <;> simp [hpart]
    rw [List.forM_cons, bind_of_ok hfirst, hrest, turned_turned, hlist]

/-- The first statement that throws ends the sequence. The flags are as if the statements up to it
had returned, and those of the components of other statements are exact. -/
theorem turnAll_throws (h : ∀ p, n.parts p = ⟨!on, !on⟩) (hnodup : (l.filterMap part).Nodup)
    {a : α} (hfind : l.find? (fun b => o b ≠ .returns) = some a) :
    ∃ e parts, forM l (fun a => turn on (o a) (part a)) ⟨n, []⟩ =
        .error e ⟨{ n with parts := parts }, []⟩ ∧
      (∀ p ∈ part a, parts p = ⟨on, if (o a).done then on else !on⟩) ∧
      (∀ p ∉ part a, (parts p).Exact) ∧
      ∀ first ∈ l.head?, ∀ p ∈ part first, (parts p).started = on := by
  obtain ⟨hthrows, before, after, rfl, hreturn⟩ := List.find?_eq_some_iff_append.1 hfind
  have hexact : ∀ p, (n.parts p).Exact := fun p => by
    rw [h p]
    rfl
  have hbefore := turnAll_returns on part hexact fun b (hb : b ∈ before) =>
    (by simpa using hreturn b hb : o b = .returns)
  cases ho : o a with
  | returns =>
    rw [ho] at hthrows
    simp at hthrows
  | throws e done =>
    -- No statement before has touched the component of this one.
    have hnot : ∀ p ∈ part a, p ∉ before.filterMap part := by
      intro p hp hmem
      rw [List.filterMap_append, List.nodup_append'] at hnodup
      exact hnodup.2.2 hmem (List.mem_filterMap.2 ⟨a, List.mem_cons_self, hp⟩)
    have hlive : ∀ p ∈ part a, (n.turned on (before.filterMap part)).parts p = ⟨!on, !on⟩ := by
      intro p hp
      simp only [turned, if_neg (hnot p hp), h p]
    obtain ⟨parts, hthrow, hpart, hother⟩ := turn_throws e done hlive
    refine ⟨e, parts, ?_, hpart, fun p hp => ?_, fun first hfirst p hp => ?_⟩
    · rw [List.forM_append, bind_of_ok hbefore, List.forM_cons, ho, bind_of_error hthrow]
      rfl
    · rw [hother p hp]
      exact exact_turned on _ hexact p
    · by_cases hpa : p ∈ part a
      · rw [hpart p hpa]
      · -- The first statement is one of those before.
        have hmem : p ∈ before.filterMap part := by
          cases before with
          | nil =>
            obtain rfl : a = first := Option.some.inj hfirst
            exact absurd hp hpa
          | cons b before =>
            obtain rfl : b = first := Option.some.inj hfirst
            exact List.mem_filterMap.2 ⟨b, List.mem_cons_self, hp⟩
        rw [hother p hpa]
        simp only [turned, if_pos hmem]

end TurnAll

/-! ### The start -/

variable {n : Node} {o : StartStatement → Outcome}

/-- A start of a node that has started does nothing. -/
theorem start_of_started (h : n.started = true) : start o ⟨n, []⟩ = .ok () ⟨n, []⟩ := by
  simp only [start, bind_of_ok this_run, h, Bool.not_true, onlyIf_false, pure_run]

/-- The node as the statements of a start find it. -/
def starting (n : Node) : Node := { n.newManagers with started := true }

/-- Every component of it is new, but for a router that has been stopped. -/
theorem parts_starting (h : n.parts .router = {}) (p : Part) : n.starting.parts p = {} := by
  unfold starting newManagers
  simp only
  split
  · next hp => rw [hp, h]
  · rfl

/-- A start makes a node of new managers, then its statements, of which one may throw. -/
theorem start_eq (h : n.started = false) :
    start o ⟨n, []⟩ = catching
      (forM HACEPImpl.start fun statement => turn true (o statement) (startedBy statement))
      (fun e => do
        modifyThis fun n => { n with started := false }
        throw (.runtimeException e)) ⟨n.starting, []⟩ := by
  simp only [start, bind_of_ok this_run, h, Bool.not_false, onlyIf_true]
  rfl

/-- A start whose statements all return returns, and everything runs. -/
theorem start_of_returns (h : n.started = false) (hrouter : n.parts .router = {})
    (ho : ∀ statement, o statement = .returns) :
    start o ⟨n, []⟩ = .ok () ⟨⟨true, fun _ => ⟨true, true⟩, n.newManagers.replaced⟩, []⟩ := by
  have hexact : ∀ p, (n.starting.parts p).Exact := fun p => by
    rw [parts_starting hrouter p]
    rfl
  have hall : ∀ p, p ∈ HACEPImpl.start.filterMap startedBy := fun p => by
    cases p <;> decide
  rw [start_eq h]
  refine (catching_of_ok (turnAll_returns true startedBy hexact fun a _ => ho a)).trans ?_
  simp only [turned, if_pos (hall _)]
  rfl

/-- A start of which a statement throws throws, and leaves the information cache marked as started.
-/
theorem start_of_throws (h : n.started = false) (hrouter : n.parts .router = {})
    (ho : ¬∀ statement, o statement = .returns) :
    ∃ e parts, start o ⟨n, []⟩ = .error e ⟨⟨false, parts, n.newManagers.replaced⟩, []⟩ ∧
      (parts .cacheInfo).started = true := by
  cases hfind : HACEPImpl.start.find? (fun s => o s ≠ .returns) with
  | none =>
    refine absurd (fun s => ?_) ho
    have hs : s ∈ HACEPImpl.start := by cases s <;> decide
    simpa using List.find?_eq_none.1 hfind s hs
  | some s =>
    obtain ⟨e, parts, hrun, -, -, hfirst⟩ :=
      turnAll_throws true startedBy (parts_starting hrouter) (by decide) hfind
    refine ⟨.runtimeException e, parts, ?_, hfirst .startCacheInfo rfl .cacheInfo rfl⟩
    rw [start_eq h, catching_of_error hrun]
    rfl

/-! ### The stop -/

/-- The inner stops, in the order in which `HACEPImpl.stop` makes them. -/
def stops : List Part := [.router, .dataGrid, .cacheInfo, .rulesManager]

/-- The first inner stop that throws. -/
def firstThrow (o : Part → Outcome) : Option Part := stops.find? fun p => o p ≠ .returns

variable {o : Part → Outcome}

/-- A stop of a node that has not started does nothing. -/
theorem stop_of_stopped (h : n.started = false) : stop o ⟨n, []⟩ = .ok () ⟨n, []⟩ := by
  simp only [stop, bind_of_ok this_run, h, onlyIf_false, pure_run]

/-- The statements of a stop, one after the other. -/
theorem stop_eq (h : n.started = true) :
    stop o ⟨n, []⟩ = catching (forM stops fun p => turn false (o p) (some p))
      (fun e => throw (.runtimeException e)) ⟨{ n with started := false }, []⟩ := by
  have hstops : (do
        onPart .router (Component.stop (o .router))
        stopDataGridManager o
        onPart .rulesManager (Component.stop (o .rulesManager))) =
      forM stops fun p => turn false (o p) (some p) := by
    simp only [stopDataGridManager, stops, bind_assoc, List.forM_cons, List.forM_nil,
      bind_pure_unit]
    rfl
  simp only [stop, bind_of_ok this_run, h, onlyIf_true, hstops]
  rfl

/-- A stop of a node that runs, whose inner stops all return, returns, and the node runs no more. -/
theorem stop_of_returns (h : n.started = true) (hrun : ∀ p, n.parts p = ⟨true, true⟩)
    (ho : firstThrow o = none) :
    stop o ⟨n, []⟩ = .ok () ⟨⟨false, fun _ => {}, n.replaced⟩, []⟩ := by
  have hexact : ∀ p, (n.parts p).Exact := fun p => by
    rw [hrun p]
    rfl
  have hall : ∀ p, p ∈ stops.filterMap some := fun p => by
    cases p <;> decide
  have hreturn : ∀ p ∈ stops, o p = .returns := fun p hp => by
    simpa using List.find?_eq_none.1 ho p hp
  rw [stop_eq h]
  refine (catching_of_ok (turnAll_returns false some (n := { n with started := false }) hexact
    hreturn)).trans ?_
  simp only [turned, if_pos (hall _)]

/-- A stop of a node that runs, of which an inner stop throws, throws. The router is not marked as
started any more, and the flags are exact but for the one of the component of that stop, which is
exact if the work had been done. -/
theorem stop_of_throws (h : n.started = true) (hrun : ∀ p, n.parts p = ⟨true, true⟩) {q : Part}
    (ho : firstThrow o = some q) :
    ∃ e parts, stop o ⟨n, []⟩ = .error e ⟨⟨false, parts, n.replaced⟩, []⟩ ∧
      parts q = ⟨false, !(o q).done⟩ ∧ (∀ p, p ≠ q → (parts p).Exact) ∧
      (parts .router).started = false := by
  obtain ⟨e, parts, hthrow, hpart, hother, hfirst⟩ :=
    turnAll_throws false some (n := { n with started := false }) hrun (by decide) ho
  refine ⟨.runtimeException e, parts, ?_, ?_, fun p hp => ?_, hfirst .router rfl .router rfl⟩
  · rw [stop_eq h, catching_of_error hthrow]
    rfl
  · rw [hpart q rfl]
    cases (o q).done <;> rfl
  · exact hother p fun hq => hp (Option.some.inj hq).symm

end Node

/-! ## Runs -/

/-- How the last call ended. -/
inductive Ended
  | startReturned
  | startThrew
  | stopReturned
  | stopThrew
  deriving DecidableEq, Repr

/-- A node, and how the last call ended, if there has been one. -/
structure State where
  node : Node := {}
  last : Option Ended := none

/-- A call, with the outcomes of the work in it. -/
inductive Call
  | start (o : StartStatement → Outcome)
  | stop (o : Part → Outcome)

/-- The calls on a node, one after the other. -/
def lts : Lts State Call where
  step s
    | .start o =>
      let result := Node.start o ⟨s.node, []⟩
      some ⟨(finalFrame result).this,
        some (if returned result then .startReturned else .startThrew)⟩
    | .stop o =>
      let result := Node.stop o ⟨s.node, []⟩
      some ⟨(finalFrame result).this,
        some (if returned result then .stopReturned else .stopThrew)⟩

/-- Everything that belongs to the node now runs. -/
def Node.Runs (n : Node) : Prop := ∀ p, (n.parts p).running = true

/-- Nothing that a start has made runs. -/
def Node.NothingRuns (n : Node) : Prop :=
  (∀ p, (n.parts p).running = false) ∧ ∀ c ∈ n.replaced, c.running = false

/-- Every flag is true exactly when what it stands for runs. -/
structure Node.FlagsExact (n : Node) : Prop where
  /-- The flag of the node. -/
  started : n.started = true ↔ n.Runs
  /-- The flags of its components. -/
  parts : ∀ p, (n.parts p).Exact
  /-- The flags of those that have been replaced. -/
  replaced : ∀ c ∈ n.replaced, c.Exact

/-- Starts and stops are all or nothing. -/
structure State.AllOrNothing (s : State) : Prop where
  /-- After a start that returned, everything runs. -/
  startReturned : s.last = some .startReturned → s.node.Runs
  /-- After a start that threw, nothing does. -/
  startThrew : s.last = some .startThrew → s.node.NothingRuns
  /-- Nor after a stop that returned. -/
  stopReturned : s.last = some .stopReturned → s.node.NothingRuns
  /-- After every call, the flags are exact. -/
  flags : s.node.FlagsExact

/-- When a call keeps starts and stops all or nothing: no statement of a start throws; a stop of a
node that has not started finds nothing running; and a stop of one that has either returns, where
nothing runs of what has been replaced, or throws after the work of the inner stop that threw. -/
def Meets (s : State) : Call → Prop
  | .start o => s.node.started = true ∨ ∀ statement, o statement = .returns
  | .stop o =>
    if s.node.started then
      match Node.firstThrow o with
      | none => ∀ c ∈ s.node.replaced, c.running = false
      | some p => (o p).done = true
    else s.node.NothingRuns

/-- The router is not marked as started before the first call and after a stop that threw. -/
def State.RouterCleared (s : State) : Prop :=
  s.last = none ∨ s.last = some .stopThrew → (s.node.parts .router).started = false

section Step

variable {s s' : State}

/-- Where the flags are exact, what runs is what is marked as started. -/
theorem Component.eq_of_exact {c : Component} {b : Bool} (h : c.Exact) (hb : c.running = b) :
    c = ⟨b, b⟩ := by
  obtain ⟨started, running⟩ := c
  have hexact : started = running := h
  subst hexact
  subst hb
  rfl

/-- A node that has not started has a router that has not. -/
theorem State.AllOrNothing.router (h : s.AllOrNothing) (hrouter : s.RouterCleared)
    (hs : s.node.started = false) : s.node.parts .router = {} := by
  have hexact : (s.node.parts .router).Exact := h.flags.parts .router
  have hstopped : (s.node.parts .router).running = false := by
    cases hlast : s.last with
    | none => rw [← hexact, hrouter (.inl hlast)]
    | some ended =>
      cases ended with
      | startReturned =>
        have hstarted : s.node.started = true := h.flags.started.2 (h.startReturned hlast)
        exact absurd (hs.symm.trans hstarted) Bool.false_ne_true
      | startThrew => exact (h.startThrew hlast).1 .router
      | stopReturned => exact (h.stopReturned hlast).1 .router
      | stopThrew => rw [← hexact, hrouter (.inr hlast)]
  exact Component.eq_of_exact hexact hstopped

/-- The managers that a start replaces have exact flags as well. -/
theorem Node.FlagsExact.newManagers {n : Node} (h : n.FlagsExact) :
    ∀ c ∈ n.newManagers.replaced, c.Exact := by
  intro c hc
  rcases List.mem_append.1 hc with hc | hc
  · simp only [List.mem_cons, List.not_mem_nil, or_false] at hc
    rcases hc with rfl | rfl | rfl
    · exact h.parts .rulesManager
    · exact h.parts .cacheInfo
    · exact h.parts .dataGrid
  · exact h.replaced c hc

/-- After a start that threw, nothing may run, so that the information cache may not be marked as
started. -/
theorem not_allOrNothing_of_startThrew {n : Node} (hflag : (n.parts .cacheInfo).started = true) :
    ¬State.AllOrNothing ⟨n, some .startThrew⟩ := by
  intro h
  have hstopped : (n.parts .cacheInfo).running = false := (h.startThrew rfl).1 .cacheInfo
  have hexact : (n.parts .cacheInfo).started = (n.parts .cacheInfo).running :=
    h.flags.parts .cacheInfo
  rw [hflag, hstopped] at hexact
  cases hexact

/-- After a stop that threw, the flag of the component whose stop threw must be exact. -/
theorem allOrNothing_of_stopThrew_iff {n : Node} {q : Part} {done : Bool}
    (hstarted : n.started = false) (hq : n.parts q = ⟨false, !done⟩)
    (hother : ∀ p, p ≠ q → (n.parts p).Exact) (hreplaced : ∀ c ∈ n.replaced, c.Exact) :
    State.AllOrNothing ⟨n, some .stopThrew⟩ ↔ done = true := by
  constructor
  · intro h
    have hexact : (n.parts q).started = (n.parts q).running := h.flags.parts q
    rw [hq] at hexact
    simpa using hexact
  · rintro rfl
    have hstopped : n.parts q = {} := hq
    refine ⟨nofun, nofun, nofun, ⟨fun hs => ?_, fun hruns => ?_⟩, fun p => ?_, hreplaced⟩
    · exact absurd (hstarted.symm.trans hs) Bool.false_ne_true
    · have hrunning : (n.parts q).running = true := hruns q
      rw [hstopped] at hrunning
      cases hrunning
    · by_cases hp : p = q
      · subst hp
        show (n.parts p).Exact
        rw [hstopped]
        rfl
      · exact hother p hp

/-- A start keeps the property when it finds the node started or none of its statements throws. -/
theorem start_step {o : StartStatement → Outcome} (h : s.AllOrNothing) (hrouter : s.RouterCleared)
    (hs : lts.step s (.start o) = some s') :
    (s'.AllOrNothing ↔ Meets s (.start o)) ∧ s'.RouterCleared := by
  simp only [lts, Option.some.injEq] at hs
  cases hstarted : s.node.started with
  | true =>
    rw [Node.start_of_started hstarted] at hs
    subst hs
    refine ⟨⟨fun _ => .inl hstarted, fun _ => ?_⟩, nofun⟩
    exact ⟨fun _ => h.flags.started.1 hstarted, nofun, nofun, h.flags⟩
  | false =>
    have hclear : s.node.parts .router = {} := h.router hrouter hstarted
    by_cases ho : ∀ statement, o statement = .returns
    · rw [Node.start_of_returns hstarted hclear ho] at hs
      subst hs
      refine ⟨⟨fun _ => .inr ho, fun _ => ⟨fun _ _ => rfl, nofun, nofun, ?_⟩⟩, nofun⟩
      exact ⟨⟨fun _ _ => rfl, fun _ => rfl⟩, fun _ => rfl, h.flags.newManagers⟩
    · -- The start throws, which is wrong whatever else it has done.
      obtain ⟨e, parts, hthrow, hflag⟩ := Node.start_of_throws hstarted hclear ho
      rw [hthrow] at hs
      subst hs
      refine ⟨iff_of_false (not_allOrNothing_of_startThrew hflag) ?_, nofun⟩
      rintro (hmeets | hmeets)
      · exact absurd (hstarted.symm.trans hmeets) Bool.false_ne_true
      · exact ho hmeets

/-- A stop keeps the property when it meets its condition. -/
theorem stop_step {o : Part → Outcome} (h : s.AllOrNothing)
    (hs : lts.step s (.stop o) = some s') :
    (s'.AllOrNothing ↔ Meets s (.stop o)) ∧ s'.RouterCleared := by
  simp only [lts, Option.some.injEq] at hs
  cases hstarted : s.node.started with
  | false =>
    -- It returns, so that nothing may run.
    rw [Node.stop_of_stopped hstarted] at hs
    subst hs
    simp only [Meets, hstarted, Bool.false_eq_true, if_false]
    refine ⟨⟨fun h' => h'.stopReturned rfl, fun hnothing => ?_⟩, nofun⟩
    exact ⟨nofun, nofun, fun _ => hnothing, h.flags⟩
  | true =>
    have hrun : ∀ p, s.node.parts p = ⟨true, true⟩ := fun p =>
      Component.eq_of_exact (h.flags.parts p) (h.flags.started.1 hstarted p)
    simp only [Meets, hstarted, if_true]
    cases ho : Node.firstThrow o with
    | none =>
      -- It stops what belongs to the node now, and not what has been replaced.
      rw [Node.stop_of_returns hstarted hrun ho] at hs
      subst hs
      refine ⟨⟨fun h' => (h'.stopReturned rfl).2, fun hreplaced => ?_⟩, nofun⟩
      refine ⟨nofun, nofun, fun _ => ⟨fun _ => rfl, hreplaced⟩, ?_⟩
      exact ⟨⟨nofun, fun hruns => hruns .router⟩, fun _ => rfl, h.flags.replaced⟩
    | some q =>
      obtain ⟨e, parts, hthrow, hq, hother, hcleared⟩ := Node.stop_of_throws hstarted hrun ho
      rw [hthrow] at hs
      subst hs
      exact ⟨allOrNothing_of_stopThrew_iff rfl hq hother h.flags.replaced, fun _ => hcleared⟩

end Step

/-- Every call can be made. -/
theorem exec_isSome (calls : List Call) : ∀ s, ∃ s', lts.exec s calls = some s' := by
  induction calls with
  | nil => exact fun s => ⟨s, rfl⟩
  | cons call calls ih =>
    intro s
    cases call with
    | start o => exact ih _
    | stop o => exact ih _

/-- Starts and stops are all or nothing throughout a run exactly when every call of it meets the
condition. -/
theorem allOrNothing_iff (calls : List Call) :
    lts.Always State.AllOrNothing {} calls ↔ lts.Guarded Meets {} calls := by
  obtain ⟨s', hexec⟩ := exec_isSome calls {}
  have hstart : ({} : State).AllOrNothing :=
    ⟨nofun, nofun, nofun, ⟨nofun, fun hruns => hruns .router⟩, fun _ => rfl, nofun⟩
  refine lts.always_iff_guarded Meets State.RouterCleared State.AllOrNothing ?_ ?_ (fun _ => rfl)
    hstart hexec
  · intro s call s' hrouter h hs
    cases call with
    | start o => exact (start_step h hrouter hs).2
    | stop o => exact (stop_step h hs).2
  · intro s call s' hrouter h hs
    cases call with
    | start o => exact (start_step h hrouter hs).1
    | stop o => exact (stop_step h hs).1

/-- A start whose statements return, but for the start of the router. -/
def routerThrows : StartStatement → Outcome
  | .startRouter => .throws (.external 0) false
  | _ => .returns

/-- It leaves the caches and the rules; a stop after it returns and leaves them as well; and another
start returns without a router. -/
theorem routerThrows_leaves :
    ∃ failed stopped retried, lts.exec {} [.start routerThrows] = some failed ∧
      failed.last = some .startThrew ∧ failed.node.parts .dataGrid = ⟨true, true⟩ ∧
      lts.exec failed [.stop fun _ => .returns] = some stopped ∧
      stopped.last = some .stopReturned ∧ stopped.node.parts .dataGrid = ⟨true, true⟩ ∧
      lts.exec failed [.start fun _ => .returns] = some retried ∧
      retried.last = some .startReturned ∧ retried.node.parts .router = ⟨true, false⟩ ∧
      ¬lts.Always State.AllOrNothing {} [.start routerThrows, .start fun _ => .returns] := by
  refine ⟨_, _, _, rfl, rfl, rfl, rfl, rfl, rfl, rfl, rfl, rfl, fun halways => ?_⟩
  have hretried := ((halways.2 _ rfl).2 _ rfl).startReturned rfl .router
  cases hretried

end Lifecycle

end Hacep
