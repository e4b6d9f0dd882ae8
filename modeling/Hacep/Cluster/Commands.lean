import Hacep.Cluster.Ingestion

/-!
# Suspend and resume across the cluster

`HACEPImpl.suspend` and `HACEPImpl.resume` write the time of the call to the info cache, under two
different keys. Every node is notified of every write, and of the writes to one key in the order in
which they were made; between the two keys there is no order, so a suspend and a resume may reach
two nodes the one way round and the other. The listener does not read the times that are written,
and does what the notification at hand says.

`agreed_iff`: when all notifications are delivered, the facts routes of the nodes agree if and only
if the same command has reached every node last.
-/

namespace Hacep

open Java

variable {N : Type} {camel : Camel}

/-- Started nodes that share the info cache: the values written under the key of each command, and
at each node the commands that its listener has been notified of, in order, and the router. -/
structure CommandCluster (N : Type) (camel : Camel) where
  writes : Command → List JString := fun _ => []
  notified : N → List Command := fun _ => []
  router : N → CamelRouter camel

namespace CommandCluster

/-- A router that has started, with its route suspended or not. -/
def startedRouter (suspended : Bool) : CamelRouter camel :=
  let router : CamelRouter camel := CamelRouter.startContext (CamelRouter.claim {})
  if suspended then router.suspend else router

/-- Nodes that have started, with their routes in one state. -/
def started (suspended : Bool) : CommandCluster N camel :=
  { router := fun _ => startedRouter suspended }

/-- What happens in the cluster. -/
inductive Action (N : Type)
  /-- `suspend()` or `resume()` on a node, at a time of the node's clock. -/
  | issue (node : N) (command : Command) (millis : ℤ)
  /-- A node is notified of the next write to the key of a command. -/
  | notify (node : N) (command : Command)

section Lts

variable [DecidableEq N]

/-- The next write to a key that a node has not been notified of. -/
def pending (s : CommandCluster N camel) (node : N) (c : Command) : Option JString :=
  (s.writes c)[(s.notified node).count c]?

/-- The cluster, step by step. -/
def lts : Lts (CommandCluster N camel) (Action N) where
  step s
    | .issue _ c millis => some { s with
        writes := Function.update s.writes c (s.writes c ++ [Command.value millis]) }
    | .notify node c => (s.pending node c).map fun value => { s with
        notified := Function.update s.notified node (s.notified node ++ [c])
        router := Function.update s.router node
          (SuspendResumeListener.eventReceived (s.router node) c.key value) }

/-- Every node has been notified of every write. -/
def Delivered (s : CommandCluster N camel) : Prop :=
  ∀ n c, (s.notified n).count c = (s.writes c).length

/-- The facts routes of the nodes are in the same state. -/
def Agreed (s : CommandCluster N camel) : Prop :=
  ∀ n m, (s.router n).isConsuming = (s.router m).isConsuming

/-! ## A node follows its last notification -/

/-- The state of the route after a list of commands. -/
def consumes (suspended : Bool) (commands : List Command) : Bool :=
  match commands.getLast? with
  | none => !suspended
  | some .suspend => false
  | some .resume => true

/-- A started router is started and runs, and consumes unless it is suspended. -/
theorem startedRouter_spec (suspended : Bool) :
    (startedRouter suspended : CamelRouter camel).started = true ∧
      (startedRouter suspended : CamelRouter camel).isRunning = true ∧
      (startedRouter suspended : CamelRouter camel).isConsuming = !suspended := by
  let router : CamelRouter camel := CamelRouter.startContext (CamelRouter.claim {})
  have hstarted : router.started = true := rfl
  have hrunning : router.isRunning = true := camel.isRunning_start _
  cases suspended with
  | false => exact ⟨hstarted, hrunning, camel.isConsuming_start _ camel.isRunning_new⟩
  | true =>
    obtain ⟨hstarted', hrunning'⟩ := router.suspend_awake
    exact ⟨hstarted'.trans hstarted, hrunning'.trans hrunning,
      CamelRouter.suspend_isConsuming hstarted⟩

/-- A started router that obeys a list of commands consumes as the last of them says. -/
theorem foldl_obey_isConsuming (suspended : Bool) (commands : List Command) :
    let r : CamelRouter camel := commands.foldl CamelRouter.obey (startedRouter suspended)
    r.started = true ∧ r.isRunning = true ∧ r.isConsuming = consumes suspended commands := by
  induction commands using List.reverseRecOn with
  | nil => exact startedRouter_spec suspended
  | append_singleton commands c ih =>
    obtain ⟨hstarted, hrunning, -⟩ := ih
    rw [List.foldl_concat]
    generalize commands.foldl CamelRouter.obey (startedRouter suspended) = r at hstarted hrunning
    obtain ⟨hstarted', hrunning'⟩ := r.obey_awake c
    refine ⟨hstarted'.trans hstarted, hrunning'.trans hrunning, ?_⟩
    unfold consumes
    rw [List.getLast?_concat]
    cases c with
    | suspend => exact CamelRouter.suspend_isConsuming hstarted
    | resume => exact (CamelRouter.resume_isConsuming hstarted).trans hrunning

/-- A step lets a node obey the command that it is notified of. -/
theorem router_step {s s' : CommandCluster N camel} {a : Action N} {suspended : Bool}
    (hs : lts.step s a = some s')
    (h : ∀ n, s.router n = (s.notified n).foldl CamelRouter.obey (startedRouter suspended)) (n : N) :
    s'.router n = (s'.notified n).foldl CamelRouter.obey (startedRouter suspended) := by
  cases a with
  | issue node c millis =>
    cases hs
    exact h n
  | notify node c =>
    obtain ⟨value, -, rfl⟩ := Option.map_eq_some_iff.1 hs
    by_cases hn : n = node
    · subst hn
      simp only [Function.update_self]
      rw [SuspendResumeListener.eventReceived_key, List.foldl_concat, h n]
    · simp only [Function.update_of_ne hn]
      exact h n

/-- In a run, the route of every node is in the state of the last command it has been notified of.
-/
theorem isConsuming_of_exec {actions : List (Action N)} {s : CommandCluster N camel}
    {suspended : Bool} (h : lts.exec (started suspended) actions = some s) (n : N) :
    (s.router n).isConsuming = consumes suspended (s.notified n) := by
  have hrouter := lts.exec_invariant
    (fun s => ∀ n, s.router n = (s.notified n).foldl CamelRouter.obey (startedRouter suspended))
    (fun s a s' hi hs => router_step hs hi) (fun _ => rfl) h
  rw [hrouter n]
  exact (foldl_obey_isConsuming suspended (s.notified n)).2.2

/-! ## Agreement -/

/-- Two lists of commands that are empty together leave the route in the same state when they end
with the same command. -/
theorem consumes_eq_iff {suspended : Bool} {cs ds : List Command} (hnil : cs = [] ↔ ds = []) :
    consumes suspended cs = consumes suspended ds ↔ cs.getLast? = ds.getLast? := by
  unfold consumes
  cases hc : cs.getLast? with
  | none =>
    have hcs : cs = [] := List.getLast?_eq_none_iff.1 hc
    rw [hnil.1 hcs]
    simp
  | some c =>
    cases hd : ds.getLast? with
    | none =>
      have hds : ds = [] := List.getLast?_eq_none_iff.1 hd
      rw [hnil.2 hds] at hc
      cases hc
    | some d => cases c <;> cases d <;> simp

omit [DecidableEq N] in
/-- Nodes that have been notified of everything have been notified of nothing together. -/
theorem Delivered.nil_iff {s : CommandCluster N camel} (h : s.Delivered) (n m : N) :
    s.notified n = [] ↔ s.notified m = [] := by
  have hzero : ∀ n, s.notified n = [] ↔ ∀ c, (s.writes c).length = 0 := by
    intro n
    simp only [← h n, List.count_eq_zero]
    exact List.eq_nil_iff_forall_not_mem
  rw [hzero n, hzero m]

/-- In every run of any number of started nodes, with any calls of `suspend` and `resume` and any
order of delivery: when every notification is delivered, the facts routes agree if and only if all
nodes were notified of the same command last. -/
theorem agreed_iff {actions : List (Action N)} {s : CommandCluster N camel} {suspended : Bool}
    (h : lts.exec (started suspended) actions = some s) (hdelivered : s.Delivered) :
    s.Agreed ↔ ∀ n m, (s.notified n).getLast? = (s.notified m).getLast? := by
  unfold Agreed
  simp only [isConsuming_of_exec h]
  exact forall_congr' fun n => forall_congr' fun m => consumes_eq_iff (hdelivered.nil_iff n m)

end Lts

/-- A suspend on one node and a resume on the other, each delivered everywhere in turn. -/
def inTurn : List (Action Bool) :=
  [.issue false .suspend 1, .notify false .suspend, .notify true .suspend, .issue true .resume 2,
    .notify true .resume, .notify false .resume]

/-- The two nodes agree. -/
theorem agreed_iff_inTurn :
    ∃ s : CommandCluster Bool .plain, lts.exec (started false) inTurn = some s ∧ s.Delivered ∧
      s.Agreed := by
  have hrun : (lts.exec (started false) inTurn).any (fun s : CommandCluster Bool .plain => decide
      ((∀ n, ∀ c ∈ [Command.suspend, .resume], (s.notified n).count c = (s.writes c).length) ∧
        ∀ n m, (s.notified n).getLast? = (s.notified m).getLast?)) = true := by
    decide +kernel
  obtain ⟨s, hs, hafter⟩ := (Option.any_eq_true _ _).1 hrun
  obtain ⟨hcounts, hlast⟩ := of_decide_eq_true hafter
  have hdelivered : s.Delivered := by
    intro n c
    exact hcounts n c (by cases c <;> simp)
  exact ⟨s, hs, hdelivered, (agreed_iff hs hdelivered).2 hlast⟩

/-- The same two calls, of which the second node is notified the other way round. -/
def crossed : List (Action Bool) :=
  [.issue false .suspend 1, .issue true .resume 2, .notify false .suspend, .notify false .resume,
    .notify true .resume, .notify true .suspend]

/-- Everything is delivered, the first node consumes and the second one does not. -/
theorem crossed_disagrees :
    ∃ s : CommandCluster Bool .plain, lts.exec (started false) crossed = some s ∧ s.Delivered ∧
      (s.router false).isConsuming = true ∧
      (s.router true).isConsuming = false ∧ ¬s.Agreed := by
  have hrun : (lts.exec (started false) crossed).any (fun s : CommandCluster Bool .plain => decide
      ((∀ n, ∀ c ∈ [Command.suspend, .resume], (s.notified n).count c = (s.writes c).length) ∧
        (s.router false).isConsuming = true ∧
        (s.router true).isConsuming = false)) = true := by
    decide +kernel
  obtain ⟨s, hs, hafter⟩ := (Option.any_eq_true _ _).1 hrun
  obtain ⟨hcounts, hfirst, hsecond⟩ := of_decide_eq_true hafter
  refine ⟨s, hs, fun n c => hcounts n c (by cases c <;> simp), hfirst, hsecond, fun hagreed => ?_⟩
  have hsame := hagreed false true
  rw [hfirst, hsecond] at hsame
  exact Bool.noConfusion hsame

end CommandCluster

end Hacep
