import Hacep.Lib.Java

/-!
# Dispatching commands

A command from the queue of commands names the route that executes it: the dispatcher sends the
message to the recipient list `direct:` followed by the command. The list is a string that Camel
splits at its commas, so the sender of a command chooses any number of endpoints of any kind, and
the dispatcher and the routes that are none of the sender's business are consumers of `direct:`
endpoints as well.

A message that is sent to the dispatcher again is dispatched again, with the same command, for ever;
`executeCommand` is the dispatch with a bound on how often that happens. An endpoint that takes a
message shows in the deliveries of every dispatch that ends (`mem_deliveries`), and a list none of
whose endpoints takes it ends at once. So the dispatch is closed for the three commands that have a
route, and for the other strings exactly when none of their parts is an endpoint that takes messages
(`closed_iff`).
-/

namespace Hacep

open Java

namespace CommandRoutes

/-- Where a message can be sent. -/
inductive Endpoint
  | direct (name : JString)
  | other (uri : JString)
  deriving DecidableEq, Repr

/-- The routes of a node. -/
inductive Route
  | loadFactFromJmsRoute
  | insertFactInGridRoute
  | executeCommandsFromJmsRoute
  | responseToJSONRoute
  | upgradeCommandRoute
  | infoCommandRoute
  | statusCommandRoute
  | suspendCommandRoute
  | resumeCommandRoute
  deriving DecidableEq, Repr

/-- The `direct:` endpoint from which a route consumes. -/
def Route.direct : Route → Option JString
  | .loadFactFromJmsRoute => none
  | .insertFactInGridRoute => some (jstr "putInGrid")
  | .executeCommandsFromJmsRoute => some (jstr "execute-command")
  | .responseToJSONRoute => some (jstr "marshal-response")
  | .upgradeCommandRoute => some (jstr "UPGRADE")
  | .infoCommandRoute => some (jstr "INFO")
  | .statusCommandRoute => some (jstr "STATUS")
  | .suspendCommandRoute => some (jstr "SUSPEND")
  | .resumeCommandRoute => some (jstr "RESUME")

/-- The routes that `CamelRouter.start` adds, in its order. -/
def addedRoutes : List Route :=
  [.loadFactFromJmsRoute, .insertFactInGridRoute, .executeCommandsFromJmsRoute, .responseToJSONRoute,
    .upgradeCommandRoute, .infoCommandRoute, .statusCommandRoute]

/-- The `direct:` endpoints that have a consumer. -/
def consumers : List JString := addedRoutes.filterMap Route.direct

/-- The commands that have a route. -/
def commands : List JString := [jstr "UPGRADE", jstr "INFO", jstr "STATUS"]

/-- `direct:execute-command`. -/
def dispatcher : Endpoint := .direct (jstr "execute-command")

/-- `simple("direct:${body.command}")`. -/
def recipientList (command : JString) : JString := jstr "direct:" ++ command

/-- The recipients of a command; 44 is the comma. -/
def recipients (command : JString) : List JString := (recipientList command).splitOn 44

/-- What has become of a message: the endpoints that have taken it, and whether the exchange has
failed. -/
structure Outcome where
  deliveries : List Endpoint := []
  failed : Bool := false
  deriving DecidableEq, Repr

/-- First the one, then the other. -/
def Outcome.append (o o' : Outcome) : Outcome := ⟨o.deliveries ++ o'.deliveries, o.failed || o'.failed⟩

section Dispatch

variable (endpoint : JString → Endpoint) (accepts : JString → Bool)

/-- The endpoint takes a message: a `direct:` endpoint when it has a consumer, any other when its
component does. -/
def takes : Endpoint → Bool
  | .direct name => consumers.contains name
  | .other uri => accepts uri

/-- A message is sent to an endpoint. `again` is what the dispatcher makes of it. -/
def send (again : Option Outcome) (e : Endpoint) : Option Outcome :=
  if e = dispatcher then again.map fun o => { o with deliveries := e :: o.deliveries }
  else if takes accepts e then some ⟨[e], false⟩
  else some ⟨[], true⟩

/-- A message is sent to each recipient, whether the sending to the ones before has failed or not.
-/
def sendAll (again : Option Outcome) : List JString → Option Outcome
  | [] => some {}
  | uri :: uris => do
    let o ← send accepts again (endpoint uri)
    let o' ← sendAll again uris
    return o.append o'

/-- `direct:execute-command`, when the message comes there a number of times at most. -/
def executeCommand (command : JString) : ℕ → Option Outcome
  | 0 => none
  | times + 1 => sendAll endpoint accepts (executeCommand command times) (recipients command)

/-- The dispatch of a command is closed: it ends, with the message at one endpoint at most, that of
a command; and for a string that is no command it ends in an error, with the message nowhere. -/
structure Closed (command : JString) : Prop where
  /-- It ends. -/
  terminates : ∃ times o, executeCommand endpoint accepts command times = some o
  /-- The message is delivered once at most. -/
  once : ∀ times o, executeCommand endpoint accepts command times = some o →
    o.deliveries.length ≤ 1
  /-- It is delivered to the route of a command. -/
  delivered : ∀ times o, executeCommand endpoint accepts command times = some o →
    ∀ e ∈ o.deliveries, ∃ name ∈ commands, e = .direct name
  /-- Other strings are refused. -/
  refused : command ∉ commands → ∀ times o,
    executeCommand endpoint accepts command times = some o → o.failed = true ∧ o.deliveries = []

variable {endpoint accepts} {again : Option Outcome} {uris : List JString} {o : Outcome}

/-- The dispatcher takes messages. -/
theorem takes_dispatcher : takes accepts dispatcher = true := by
  have : consumers.contains (jstr "execute-command") = true := by decide
  exact this

/-- An endpoint that takes a message has it when the sending to it ends. -/
theorem mem_of_send {e : Endpoint} (h : takes accepts e = true)
    (hsend : send accepts again e = some o) : e ∈ o.deliveries := by
  unfold send at hsend
  by_cases hdispatcher : e = dispatcher
  · rw [if_pos hdispatcher] at hsend
    obtain ⟨o', -, rfl⟩ := Option.map_eq_some_iff.1 hsend
    exact List.mem_cons_self
  · rw [if_neg hdispatcher, if_pos h] at hsend
    cases hsend
    exact List.mem_singleton_self e

/-- An endpoint that takes a message and is among its recipients has it when the sending to all of
them ends. -/
theorem mem_deliveries (h : sendAll endpoint accepts again uris = some o) {uri : JString}
    (huri : uri ∈ uris) (htakes : takes accepts (endpoint uri) = true) :
    endpoint uri ∈ o.deliveries := by
  induction uris generalizing o with
  | nil => exact absurd huri List.not_mem_nil
  | cons first uris ih =>
    simp only [sendAll, Option.bind_eq_bind, Option.bind_eq_some_iff] at h
    obtain ⟨o₁, hfirst, o₂, hrest, h⟩ := h
    cases h
    obtain rfl | huri := List.mem_cons.1 huri
    · exact List.mem_append_left _ (mem_of_send htakes hfirst)
    · exact List.mem_append_right _ (ih hrest huri)

/-- Where no recipient takes a message, the sending fails and has delivered nothing. -/
theorem sendAll_of_refused (h : ∀ uri ∈ uris, takes accepts (endpoint uri) = false) :
    sendAll endpoint accepts again uris = some ⟨[], !uris.isEmpty⟩ := by
  induction uris with
  | nil => rfl
  | cons uri uris ih =>
    obtain ⟨huri, huris⟩ := List.forall_mem_cons.1 h
    have hne : endpoint uri ≠ dispatcher := fun hdispatcher => by
      rw [hdispatcher, takes_dispatcher] at huri
      cases huri
    have hsend : send accepts again (endpoint uri) = some ⟨[], true⟩ := by
      rw [send, if_neg hne, huri]
      rfl
    simp only [sendAll, hsend, ih huris, Option.bind_eq_bind, Option.bind_some]
    rfl

/-- A command with a route has one recipient. -/
theorem recipients_of_command {command : JString} (h : command ∈ commands) :
    recipients command = [jstr "direct:" ++ command] := by
  refine List.splitOn_eq_singleton ?_
  revert command
  decide

/-- Sending a message to the route of its command delivers it there. -/
theorem sendAll_of_command {command : JString} (h : command ∈ commands)
    (hendpoint : endpoint (jstr "direct:" ++ command) = .direct command) :
    sendAll endpoint accepts again (recipients command) = some ⟨[.direct command], false⟩ := by
  have hroute : ∀ name ∈ commands, .direct name ≠ dispatcher ∧ consumers.contains name = true := by
    decide
  have hsend : send accepts again (.direct command) = some ⟨[.direct command], false⟩ := by
    rw [send, if_neg (hroute command h).1]
    exact if_pos (hroute command h).2
  rw [recipients_of_command h]
  simp only [sendAll, hendpoint, hsend, Option.bind_eq_bind, Option.bind_some]
  rfl

/-- The sending to recipients with the dispatcher among them does not end where the dispatch does
not. -/
theorem sendAll_of_dispatcher {uri : JString} (huri : uri ∈ uris) (h : endpoint uri = dispatcher) :
    sendAll endpoint accepts none uris = none := by
  induction uris with
  | nil => exact absurd huri List.not_mem_nil
  | cons first uris ih =>
    obtain rfl | huri := List.mem_cons.1 huri
    · have hsend : send accepts none (endpoint uri) = none := by
        rw [send, if_pos h]
        rfl
      simp only [sendAll, hsend, Option.bind_eq_bind, Option.bind_none]
    · simp only [sendAll, ih huri, Option.bind_eq_bind, Option.bind_none, Option.bind_fun_none]

/-- A message with the dispatcher among its recipients is dispatched for ever. -/
theorem executeCommand_diverges {command uri : JString} (huri : uri ∈ recipients command)
    (h : endpoint uri = dispatcher) (times : ℕ) :
    executeCommand endpoint accepts command times = none := by
  induction times with
  | zero => rfl
  | succ times ih => rw [executeCommand, ih, sendAll_of_dispatcher huri h]

/-- Where the sending to its recipients ends in the same way whatever comes of another dispatch, the
dispatch of a command ends in that way, and is closed when that way is. -/
theorem closed_of_sendAll {command : JString}
    (h : ∀ again, sendAll endpoint accepts again (recipients command) = some o)
    (honce : o.deliveries.length ≤ 1)
    (hdelivered : ∀ e ∈ o.deliveries, ∃ name ∈ commands, e = .direct name)
    (hrefused : command ∉ commands → o.failed = true ∧ o.deliveries = []) :
    Closed endpoint accepts command := by
  have hrun : ∀ times o', executeCommand endpoint accepts command times = some o' → o' = o := by
    intro times o' hrun
    cases times with
    | zero => cases hrun
    | succ times =>
      rw [executeCommand, h] at hrun
      exact (Option.some.inj hrun).symm
  constructor
  · exact ⟨1, o, h _⟩
  · intro times o' ho
    rw [hrun times o' ho]
    exact honce
  · intro times o' ho
    rw [hrun times o' ho]
    exact hdelivered
  · intro hcommand times o' ho
    rw [hrun times o' ho]
    exact hrefused hcommand

/-- A closed dispatch of a string without a route has no recipient that takes messages. -/
theorem takes_of_closed {command uri : JString} (h : Closed endpoint accepts command)
    (hcommand : command ∉ commands) (huri : uri ∈ recipients command) :
    takes accepts (endpoint uri) = false := by
  by_contra htakes
  rw [Bool.not_eq_false] at htakes
  -- The dispatch ends, so the recipient has the message.
  obtain ⟨times, o, hrun⟩ := h.terminates
  have hnone : o.deliveries = [] := (h.refused hcommand times o hrun).2
  cases times with
  | zero => cases hrun
  | succ times =>
    have hmem : endpoint uri ∈ o.deliveries := mem_deliveries hrun huri htakes
    rw [hnone] at hmem
    exact List.not_mem_nil hmem

/-- The dispatch of a command is closed when the command has a route, and otherwise exactly when
none of its recipients takes messages. -/
theorem closed_iff (hendpoint : ∀ name ∈ commands,
    endpoint (jstr "direct:" ++ name) = .direct name) (command : JString) :
    Closed endpoint accepts command ↔ command ∈ commands ∨
      ∀ uri ∈ recipients command, takes accepts (endpoint uri) = false := by
  constructor
  · intro h
    by_cases hcommand : command ∈ commands
    · exact .inl hcommand
    · exact .inr fun uri huri => takes_of_closed h hcommand huri
  · rintro (hcommand | hrefused)
    · -- The message is delivered to the route of the command.
      refine closed_of_sendAll (fun _ => sendAll_of_command hcommand (hendpoint command hcommand))
        le_rfl (fun e he => ?_) (absurd hcommand)
      exact ⟨command, hcommand, List.mem_singleton.1 he⟩
    · -- There is a recipient, and the message is delivered to none.
      have hne : (recipients command).isEmpty = false := by
        rw [List.isEmpty_eq_false_iff]
        exact List.splitOn_ne_nil _ _
      refine closed_of_sendAll (fun _ => sendAll_of_refused hrefused) (Nat.zero_le 1)
        (fun e he => absurd he List.not_mem_nil) fun _ => ⟨?_, rfl⟩
      rw [hne]
      rfl

end Dispatch

/-- The endpoint of a URI, as far as its scheme. -/
def ofUri (uri : JString) : Endpoint :=
  if (jstr "direct:").isPrefixOf uri then .direct (uri.drop 7) else .other uri

/-- A suspend command has a route, which is not added. -/
theorem closed_iff_suspend : Closed ofUri (fun _ => true) (jstr "SUSPEND") :=
  (closed_iff (by decide) (jstr "SUSPEND")).2 (.inr (by decide))

/-- The command `execute-command` is dispatched for ever, `putInGrid` reaches the route of the
facts, and `INFO,log:x` two endpoints. -/
theorem executeCommand_open :
    (∀ times, executeCommand ofUri (fun _ => true) (jstr "execute-command") times = none) ∧
      executeCommand ofUri (fun _ => true) (jstr "putInGrid") 1 =
        some ⟨[.direct (jstr "putInGrid")], false⟩ ∧
      executeCommand ofUri (fun _ => true) (jstr "INFO,log:x") 1 =
        some ⟨[.direct (jstr "INFO"), .other (jstr "log:x")], false⟩ :=
  ⟨executeCommand_diverges (by decide : jstr "direct:execute-command" ∈ _) (by decide),
    by decide, by decide⟩

end CommandRoutes

end Hacep
