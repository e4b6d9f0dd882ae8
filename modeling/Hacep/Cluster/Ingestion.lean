import Hacep.Lib.Java
import Hacep.Cluster.Startup

/-!
# The facts route of a node

A node consumes facts by a Camel route that two parties suspend and resume: the operator, by a write
to the info cache that reaches `SuspendResumeListener` on every node, and the grid, whose rehashes
of the session cache reach `SessionListenerPre` and `SessionListenerPost`. Both call the same
`Router`, which is on or off and does not know who turned it off, and which ignores a call that
comes before its context runs. Camel itself is not part of the repository: `Camel` is what is relied
on of a context and its facts route.

The model is one node, from before its start. Its start takes the statements of `HACEPImpl.start`
one by one, `router.start` and the two session listeners in two steps each; the operator's commands
come from any node at any time, also before there is a listener, and rehashes begin and end from the
start of the session cache on. `stopped_iff` says which runs keep the route from consuming whenever
a rehash is under way or the latest command is a suspend: those in which no command resumes the
running route during a rehash, no rehash ends under a suspend, and the Camel context does not start
under either.
-/

namespace Hacep

open Java

/-! ## The router -/

/-- `Router.SUSPEND`. -/
def Router.SUSPEND : JString := jstr "SUSPEND_ROUTE"

/-- `Router.RESUME`. -/
def Router.RESUME : JString := jstr "RESUME_ROUTE"

/-- A Camel context, as far as its facts route goes. -/
structure Camel where
  /-- The state of a context. -/
  Context : Type
  /-- A context to which the routes have been added. -/
  new : Context
  /-- `camelContext.start()`. -/
  start : Context → Context
  /-- `camelContext.suspendRoute`. -/
  suspendRoute : Context → Context
  /-- `camelContext.resumeRoute`. -/
  resumeRoute : Context → Context
  /-- The context has been started. -/
  isRunning : Context → Bool
  /-- The facts route consumes messages. -/
  isConsuming : Context → Bool
  /-- A context runs from its start on, whatever becomes of its route. -/
  isRunning_new : isRunning new = false
  isRunning_start : ∀ c, isRunning (start c) = true
  isRunning_suspendRoute : ∀ c, isRunning (suspendRoute c) = isRunning c
  isRunning_resumeRoute : ∀ c, isRunning (resumeRoute c) = isRunning c
  /-- Its start starts the routes that have been added. -/
  isConsuming_start : ∀ c, isRunning c = false → isConsuming (start c) = true
  /-- A route that has been suspended is off. -/
  isConsuming_suspendRoute : ∀ c, isConsuming (suspendRoute c) = false
  /-- One that has been resumed is on if the context runs. -/
  isConsuming_resumeRoute : ∀ c, isConsuming (resumeRoute c) = isRunning c
  /-- A context that does not run consumes nothing. -/
  isConsuming_of_not_running : ∀ c, isRunning c = false → isConsuming c = false

/-- A context of which no more is known than whether it runs, and whether its route is suspended. -/
structure PlainContext where
  running : Bool := false
  suspended : Bool := false
  deriving DecidableEq, Repr

namespace PlainContext

/-- The route of a context that runs is suspended, or resumed. -/
def setSuspended (suspended : Bool) (c : PlainContext) : PlainContext :=
  if c.running then { c with suspended := suspended } else c

def isConsuming (c : PlainContext) : Bool := c.running && !c.suspended

theorem running_setSuspended (suspended : Bool) (c : PlainContext) :
    (c.setSuspended suspended).running = c.running := by
  unfold setSuspended
  split <;> rfl

theorem isConsuming_setSuspended (suspended : Bool) (c : PlainContext) :
    (c.setSuspended suspended).isConsuming = (c.running && !suspended) := by
  cases hrun : c.running <;> simp [setSuspended, isConsuming, hrun]

theorem isConsuming_of_not_running (c : PlainContext) (h : c.running = false) :
    c.isConsuming = false := by
  rw [isConsuming, h, Bool.false_and]

end PlainContext

/-- A Camel with no more to it. -/
def Camel.plain : Camel where
  Context := PlainContext
  new := {}
  start _ := { running := true }
  suspendRoute := PlainContext.setSuspended true
  resumeRoute := PlainContext.setSuspended false
  isRunning := PlainContext.running
  isConsuming := PlainContext.isConsuming
  isRunning_new := rfl
  isRunning_start _ := rfl
  isRunning_suspendRoute := PlainContext.running_setSuspended true
  isRunning_resumeRoute := PlainContext.running_setSuspended false
  isConsuming_start _ _ := rfl
  isConsuming_suspendRoute c :=
    (PlainContext.isConsuming_setSuspended true c).trans (Bool.and_false _)
  isConsuming_resumeRoute c :=
    (PlainContext.isConsuming_setSuspended false c).trans (Bool.and_true _)
  isConsuming_of_not_running := PlainContext.isConsuming_of_not_running

variable {camel : Camel}

/-- `CamelRouter`. -/
structure CamelRouter (camel : Camel) where
  started : Bool := false
  camelContext : camel.Context := camel.new

namespace CamelRouter

/-- `start`, as far as `started.compareAndSet(false, true)`. -/
def claim (r : CamelRouter camel) : CamelRouter camel := { r with started := true }

/-- `camelContext.start()`, the end of `start`. -/
def startContext (r : CamelRouter camel) : CamelRouter camel :=
  { r with camelContext := camel.start r.camelContext }

/-- `suspend`. -/
def suspend (r : CamelRouter camel) : CamelRouter camel :=
  if r.started then { r with camelContext := camel.suspendRoute r.camelContext } else r

/-- `resume`. -/
def resume (r : CamelRouter camel) : CamelRouter camel :=
  if r.started then { r with camelContext := camel.resumeRoute r.camelContext } else r

/-- The context of the router runs. -/
def isRunning (r : CamelRouter camel) : Bool := camel.isRunning r.camelContext

/-- The facts route consumes messages. -/
def isConsuming (r : CamelRouter camel) : Bool := camel.isConsuming r.camelContext

/-- Suspending changes neither that the router has started nor that its context runs. -/
@[simp]
theorem suspend_awake (r : CamelRouter camel) :
    r.suspend.started = r.started ∧ r.suspend.isRunning = r.isRunning := by
  unfold suspend isRunning
  split
  · exact ⟨rfl, camel.isRunning_suspendRoute _⟩
  · exact ⟨rfl, rfl⟩

/-- Nor does resuming. -/
@[simp]
theorem resume_awake (r : CamelRouter camel) :
    r.resume.started = r.started ∧ r.resume.isRunning = r.isRunning := by
  unfold resume isRunning
  split
  · exact ⟨rfl, camel.isRunning_resumeRoute _⟩
  · exact ⟨rfl, rfl⟩

variable {r : CamelRouter camel}

/-- A router that has started stops consuming when it is suspended. -/
theorem suspend_isConsuming (h : r.started = true) : r.suspend.isConsuming = false := by
  rw [suspend, if_pos h]
  exact camel.isConsuming_suspendRoute _

/-- A router that has started consumes when it is resumed, unless its context does not run. -/
theorem resume_isConsuming (h : r.started = true) : r.resume.isConsuming = r.isRunning := by
  rw [resume, if_pos h]
  exact camel.isConsuming_resumeRoute _

end CamelRouter

/-! ## The listeners -/

/-- `SuspendResumeListener.eventReceived`; the value is logged only. -/
def SuspendResumeListener.eventReceived (r : CamelRouter camel) (key _value : JString) :
    CamelRouter camel :=
  let r := if Router.SUSPEND = key then r.suspend else r
  if Router.RESUME = key then r.resume else r

/-- `SessionListenerPre.rehash`. -/
def SessionListenerPre.rehash (r : CamelRouter camel) : CamelRouter camel := r.suspend

/-- `SessionListenerPost.rehash`. -/
def SessionListenerPost.rehash (r : CamelRouter camel) : CamelRouter camel := r.resume

/-- A command of the operator. -/
inductive Command
  | suspend
  | resume
  deriving DecidableEq, Repr

/-- The entry of the info cache that `HACEPImpl.suspend` and `HACEPImpl.resume` write. -/
def Command.key : Command → JString
  | .suspend => Router.SUSPEND
  | .resume => Router.RESUME

/-- The value that they write: `String.valueOf(System.currentTimeMillis())`. -/
def Command.value (millis : ℤ) : JString := jstr (toString millis)

/-- The router's method for a command. -/
def CamelRouter.obey (r : CamelRouter camel) : Command → CamelRouter camel
  | .suspend => r.suspend
  | .resume => r.resume

/-- A command changes neither that the router has started nor that its context runs. -/
@[simp]
theorem CamelRouter.obey_awake (r : CamelRouter camel) (c : Command) :
    (r.obey c).started = r.started ∧ (r.obey c).isRunning = r.isRunning := by
  cases c with
  | suspend => exact r.suspend_awake
  | resume => exact r.resume_awake

/-- The listener tells the two commands apart by their keys. -/
theorem SuspendResumeListener.eventReceived_key (r : CamelRouter camel) (c : Command)
    (value : JString) :
    SuspendResumeListener.eventReceived r c.key value = r.obey c := by
  have hne : Router.SUSPEND ≠ Router.RESUME := by decide
  unfold SuspendResumeListener.eventReceived
  cases c with
  | suspend => simp only [Command.key, CamelRouter.obey, hne.symm, if_true, if_false]
  | resume => simp only [Command.key, CamelRouter.obey, hne, if_true, if_false]

/-! ## A node -/

/-- A step of a start, where the ingestion has a finer view of it than `StartStatement`. -/
inductive IngestionStatement
  | statement (s : StartStatement)
  /-- `addListener(new SessionListenerPre(router))`. -/
  | addSessionListenerPre
  /-- `addListener(new SessionListenerPost(router))`. -/
  | addSessionListenerPost
  /-- `router.start`, as far as `started.compareAndSet(false, true)`. -/
  | claimRouter
  /-- `camelContext.start()`, at the end of `router.start`. -/
  | startContext
  deriving DecidableEq, Repr

/-- The steps of a statement. -/
def StartStatement.steps : StartStatement → List IngestionStatement
  | .addSessionListeners => [.addSessionListenerPre, .addSessionListenerPost]
  | .startRouter => [.claimRouter, .startContext]
  | s => [.statement s]

/-- A node, as far as its ingestion goes: the rest of its start, its listeners and its router,
whether the grid rehashes its session cache, and the latest command of the operator in the cluster.
-/
structure IngestionNode (camel : Camel) where
  remaining : List IngestionStatement
  sessionCache : Bool := false
  suspendResumeListener : Bool := false
  sessionListenerPre : Bool := false
  sessionListenerPost : Bool := false
  router : CamelRouter camel := {}
  rehashing : Bool := false
  lastCommand : Option Command

/-- What a step of a start does to the node. -/
def IngestionStatement.run (n : IngestionNode camel) : IngestionStatement → IngestionNode camel
  | .statement .getSessionCache => { n with sessionCache := true }
  | .statement .addSuspendResumeListener => { n with suspendResumeListener := true }
  | .statement _ => n
  | .addSessionListenerPre => { n with sessionListenerPre := true }
  | .addSessionListenerPost => { n with sessionListenerPost := true }
  | .claimRouter => { n with router := n.router.claim }
  | .startContext => { n with router := n.router.startContext }

namespace IngestionNode

/-- A node before its start, in a cluster that may have had commands. -/
def fresh (lastCommand : Option Command) : IngestionNode camel :=
  { remaining := HACEPImpl.start.flatMap StartStatement.steps, lastCommand := lastCommand }

/-- What happens to a node. -/
inductive Event
  /-- The next step of its start. -/
  | start
  /-- A command that any node of the cluster has written to the info cache. -/
  | command (command : Command) (millis : ℤ)
  /-- A rehash of the session cache begins. -/
  | rehashStarted
  /-- It ends. -/
  | rehashFinished
  deriving DecidableEq, Repr

/-- The next step of the start. -/
def next (n : IngestionNode camel) : Option (IngestionNode camel) :=
  match n.remaining with
  | [] => none
  | statement :: rest => some { statement.run n with remaining := rest }

/-- A command reaches the node when its listener is registered. -/
def receive (n : IngestionNode camel) (c : Command) (millis : ℤ) : IngestionNode camel := { n with
  router := if n.suspendResumeListener then
    SuspendResumeListener.eventReceived n.router c.key (Command.value millis) else n.router
  lastCommand := some c }

/-- The node, event by event. -/
def lts : Lts (IngestionNode camel) Event where
  step n
    | .start => n.next
    | .command c millis => some (n.receive c millis)
    | .rehashStarted => if n.sessionCache && !n.rehashing then some { n with
        rehashing := true
        router := if n.sessionListenerPre then SessionListenerPre.rehash n.router else n.router }
      else none
    | .rehashFinished => if n.rehashing then some { n with
        rehashing := false
        router := if n.sessionListenerPost then SessionListenerPost.rehash n.router else n.router }
      else none

/-- The node must not consume: a rehash is under way, or the operator's latest command is a suspend.
-/
def mustStop (n : IngestionNode camel) : Bool := n.rehashing || n.lastCommand == some .suspend

/-- The facts route does not consume when it must not. -/
def Stopped (n : IngestionNode camel) : Prop :=
  n.mustStop = true → n.router.isConsuming = false

/-- The event does not turn on a route that must stay off: the context does not start when the node
must stop, and the route of a running context is resumed neither by the operator during a rehash nor
by the end of a rehash under a suspend. -/
def Spares (n : IngestionNode camel) : Event → Bool
  | .start => n.remaining.head? != some .startContext || !n.mustStop
  | .command .suspend _ => true
  | .command .resume _ => !(n.router.isRunning && n.rehashing)
  | .rehashStarted => true
  | .rehashFinished =>
    !(n.router.isRunning && n.lastCommand == some .suspend)

/-! ### What the start has done -/

/-- The node with a plain Camel, as if there had been no commands and no rehashes. -/
def starting (n : IngestionNode camel) : IngestionNode .plain where
  remaining := n.remaining
  sessionCache := n.sessionCache
  suspendResumeListener := n.suspendResumeListener
  sessionListenerPre := n.sessionListenerPre
  sessionListenerPost := n.sessionListenerPost
  router := { started := n.router.started, camelContext := { running := n.router.isRunning } }
  lastCommand := none

/-- The node after a number of steps of its start, when nothing else happens. -/
def after : ℕ → IngestionNode .plain
  | 0 => fresh none
  | j + 1 => (after j).next.getD (after j)

/-- The number of steps of a start. -/
def startSteps : ℕ := (HACEPImpl.start.flatMap StartStatement.steps).length

/-- The node is at some point of its start, whatever commands and rehashes have done to it. -/
def Reached (n : IngestionNode camel) : Prop := ∃ j ≤ startSteps, n.starting = after j

variable {n n' : IngestionNode camel}

theorem reached_fresh (last : Option Command) : (fresh last : IngestionNode camel).Reached := by
  refine ⟨0, Nat.zero_le _, ?_⟩
  rw [starting, CamelRouter.isRunning]
  simp only [fresh, camel.isRunning_new]
  rfl

/-- A step of the start does not look at what commands and rehashes have changed. -/
theorem next_starting (h : n.next = some n') : n.starting.next = some n'.starting := by
  unfold next at h ⊢
  have hsame : n.starting.remaining = n.remaining := rfl
  rw [hsame]
  cases hr : n.remaining with
  | nil => rw [hr] at h; cases h
  | cons statement rest =>
    rw [hr] at h
    cases h
    cases statement with
    | statement s => cases s <;> rfl
    | addSessionListenerPre => rfl
    | addSessionListenerPost => rfl
    | claimRouter => rfl
    | startContext =>
      have hrun : n.router.startContext.isRunning = true := camel.isRunning_start _
      simp only [starting, IngestionStatement.run, hrun]
      rfl

/-- A step of the start leads to the next point of it. -/
theorem Reached.next (h : n.Reached) (hn : n.next = some n') : n'.Reached := by
  obtain ⟨j, hj, hstarting⟩ := h
  have hlt : ∀ i ≤ startSteps, (after i).next.isSome = true → i < startSteps := by decide
  have hnext := next_starting hn
  rw [hstarting] at hnext
  refine ⟨j + 1, hlt j hj (by rw [hnext]; rfl), ?_⟩
  rw [after, hnext, Option.getD_some]

/-- While the context runs, the router has started and all listeners are registered. -/
theorem Reached.running (h : n.Reached) (hrun : n.router.isRunning = true) :
    n.router.started = true ∧ n.suspendResumeListener = true ∧ n.sessionListenerPre = true ∧
      n.sessionListenerPost = true := by
  obtain ⟨j, hj, hstarting⟩ := h
  have hall : ∀ i ≤ startSteps, (after i).router.isRunning = true →
      (after i).router.started = true ∧ (after i).suspendResumeListener = true ∧
        (after i).sessionListenerPre = true ∧ (after i).sessionListenerPost = true := by decide
  have hj' := hall j hj
  rw [← hstarting] at hj'
  exact hj' hrun

/-- The context does not run before the start has come to it. -/
theorem Reached.not_running (h : n.Reached) (hhead : n.remaining.head? = some .startContext) :
    n.router.isRunning = false := by
  obtain ⟨j, hj, hstarting⟩ := h
  have hall : ∀ i ≤ startSteps, (after i).remaining.head? = some .startContext →
      (after i).router.isRunning = false := by decide
  have hj' := hall j hj
  rw [← hstarting] at hj'
  exact hj' hhead

/-- A step of the start changes neither the rehash nor the command, and the context only when it
starts it. -/
theorem next_spec (hn : n.next = some n') :
    n'.mustStop = n.mustStop ∧ n'.router.isConsuming =
      if n.remaining.head? = some .startContext then n.router.startContext.isConsuming
      else n.router.isConsuming := by
  unfold next at hn
  cases hr : n.remaining with
  | nil => rw [hr] at hn; cases hn
  | cons statement rest =>
    rw [hr] at hn
    cases hn
    cases statement with
    | statement s => cases s <;> exact ⟨rfl, rfl⟩
    | addSessionListenerPre => exact ⟨rfl, rfl⟩
    | addSessionListenerPost => exact ⟨rfl, rfl⟩
    | claimRouter => exact ⟨rfl, rfl⟩
    | startContext => exact ⟨rfl, rfl⟩

/-! ### One event -/

/-- Commands and rehashes leave the start where it is. -/
theorem starting_event {e : Event} (hs : lts.step n e = some n') (he : e ≠ .start) :
    n'.starting = n.starting := by
  cases e with
  | start => exact absurd rfl he
  | command c millis =>
    cases hs
    unfold receive
    rw [SuspendResumeListener.eventReceived_key]
    cases hl : n.suspendResumeListener <;> simp [starting, hl]
  | rehashStarted =>
    simp only [lts, Option.ite_none_right_eq_some] at hs
    obtain ⟨-, hs⟩ := hs
    cases hs
    cases hl : n.sessionListenerPre <;> simp [starting, hl, SessionListenerPre.rehash]
  | rehashFinished =>
    simp only [lts, Option.ite_none_right_eq_some] at hs
    obtain ⟨-, hs⟩ := hs
    cases hs
    cases hl : n.sessionListenerPost <;> simp [starting, hl, SessionListenerPost.rehash]

/-- Every event leaves the node at some point of its start. -/
theorem Reached.step {e : Event} (h : n.Reached) (hs : lts.step n e = some n') : n'.Reached := by
  by_cases he : e = .start
  · subst he
    exact h.next hs
  · obtain ⟨j, hj, hstarting⟩ := h
    exact ⟨j, hj, (starting_event hs he).trans hstarting⟩

/-- A node whose context does not run has stopped. -/
theorem stopped_of_not_running (h : n.router.isRunning = false) : n.Stopped :=
  fun _ => camel.isConsuming_of_not_running _ h

/-- While the context runs, a command or a rehash keeps the node stopped exactly when it spares it.
-/
theorem stopped_running {e : Event} (h : n.Reached) (hrun : n.router.isRunning = true)
    (hs : lts.step n e = some n') (he : e ≠ .start) : n'.Stopped ↔ n.Spares e = true := by
  obtain ⟨hstarted, hcommands, hpre, hpost⟩ := h.running hrun
  have hoff := CamelRouter.suspend_isConsuming hstarted
  have hon := CamelRouter.resume_isConsuming hstarted
  cases e with
  | start => exact absurd rfl he
  | command c millis =>
    cases hs
    unfold receive Stopped
    rw [SuspendResumeListener.eventReceived_key]
    cases c with
    | suspend => simp [hcommands, CamelRouter.obey, hoff, Spares]
    | resume => simp [hcommands, CamelRouter.obey, hon, hrun, Spares, mustStop]
  | rehashStarted =>
    simp only [lts, Option.ite_none_right_eq_some] at hs
    obtain ⟨-, hs⟩ := hs
    cases hs
    simp [Stopped, hpre, SessionListenerPre.rehash, hoff, Spares]
  | rehashFinished =>
    simp only [lts, Option.ite_none_right_eq_some] at hs
    obtain ⟨-, hs⟩ := hs
    cases hs
    simp [Stopped, hpost, SessionListenerPost.rehash, hon, hrun, Spares, mustStop]

/-- An event keeps a node stopped exactly when it spares it. -/
theorem stopped_step {e : Event} (h : n.Reached) (hstopped : n.Stopped)
    (hs : lts.step n e = some n') : n'.Stopped ↔ n.Spares e = true := by
  by_cases he : e = .start
  · -- The start turns the route on where it starts the context, and nowhere else.
    subst he
    obtain ⟨hmust, hcontext⟩ := next_spec hs
    unfold Stopped at hstopped ⊢
    rw [hmust, hcontext]
    by_cases hhead : n.remaining.head? = some .startContext
    · have hon : n.router.startContext.isConsuming = true :=
        camel.isConsuming_start _ (h.not_running hhead)
      simp [hhead, hon, Spares]
    · simpa [hhead, Spares] using hstopped
  · cases hrun : n.router.isRunning with
    | true => exact stopped_running h hrun hs he
    | false =>
      have hsame : n'.router.isRunning = n.router.isRunning :=
        congrArg (fun m => m.router.isRunning) (starting_event hs he)
      have hstopped' : n'.Stopped := stopped_of_not_running (hsame.trans hrun)
      have hspares : n.Spares e = true := by
        cases e with
        | start => exact absurd rfl he
        | command c millis => cases c <;> simp [Spares, hrun]
        | rehashStarted => rfl
        | rehashFinished => simp [Spares, hrun]
      exact iff_of_true hstopped' hspares

/-- In every run of a node, from before its start, the facts route does not consume whenever a
rehash is under way or the operator's latest command is a suspend, if and only if every event of the
run spares the node. -/
theorem stopped_iff {last : Option Command} {events : List Event}
    (h : lts.exec (fresh last) events = some n) :
    lts.Always Stopped (fresh last : IngestionNode camel) events ↔
      lts.Guarded (fun n e => n.Spares e = true) (fresh last : IngestionNode camel) events :=
  lts.always_iff_guarded _ Reached Stopped (fun _ _ _ hi _ hs => hi.step hs)
    (fun _ _ _ hi hgood hs => stopped_step hi hgood hs) (reached_fresh last)
    (stopped_of_not_running camel.isRunning_new) h

/-- A node starts, and is suspended and resumed by the operator and by a rehash in turn. -/
def suspendedInTurn : List Event :=
  List.replicate 17 .start ++ [.rehashStarted, .rehashFinished, .command .suspend 1,
    .rehashStarted, .command .suspend 2, .command .suspend 3]

/-- It stops when it must. -/
theorem stopped_iff_suspendedInTurn :
    lts.Always Stopped (fresh (some .resume) : IngestionNode .plain) suspendedInTurn := by
  have hrun :
      (lts.exec (fresh (some .resume) : IngestionNode .plain) suspendedInTurn).isSome = true := by
    decide +kernel
  obtain ⟨n, hn⟩ := Option.isSome_iff_exists.1 hrun
  exact (stopped_iff hn).2 (by decide +kernel)

/-- A node starts, the operator suspends the cluster, and a rehash comes and goes. -/
def rehashWhileSuspended : List Event :=
  List.replicate 17 .start ++ [.command .suspend 1, .rehashStarted, .rehashFinished]

/-- The node has started and consumes messages, although the latest command is a suspend. -/
theorem rehashWhileSuspended_consumes :
    ∃ n : IngestionNode .plain, lts.exec (fresh none) rehashWhileSuspended = some n ∧
      n.remaining = [] ∧ n.lastCommand = some .suspend ∧ n.router.isConsuming = true ∧
      ¬n.Stopped := by
  have hrun : (lts.exec (fresh none : IngestionNode .plain) rehashWhileSuspended).any
      (fun n => decide (n.remaining = [] ∧ n.lastCommand = some .suspend ∧
        n.router.isConsuming = true)) = true := by
    decide +kernel
  obtain ⟨n, hn, hafter⟩ := (Option.any_eq_true _ _).1 hrun
  obtain ⟨hdone, hlast, hconsuming⟩ := of_decide_eq_true hafter
  refine ⟨n, hn, hdone, hlast, hconsuming, fun hstopped => ?_⟩
  have hmust : n.mustStop = true := by
    unfold mustStop
    rw [hlast]
    exact Bool.or_true _
  exact Bool.noConfusion ((hstopped hmust).symm.trans hconsuming)

end IngestionNode

end Hacep
